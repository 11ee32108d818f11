import Chinet.Lib.Keystream

/-!
# The stream encryption filters

The two filters over a stream cipher that works in blocks, and the sequences of writes, flushes
and reads for which they give back the bytes that were written.
-/

namespace Chinet

open Keystream

/-- `ECRYPT_BLOCKLENGTH` -/
def ecryptBlocklength : Nat := 64

/-- The loop of `ECRYPT_encrypt_bytes`, one pass for each block: the bytes written and the counter
of the context. -/
def encryptLoop (ks : Blocks) : Nat → Nat → List UInt8 → List UInt8 × Nat
  | 0, ctx, _ => ([], ctx)
  | passes + 1, ctx, m =>
      if m.length ≤ ecryptBlocklength then (cryptBlock ks ctx m, ctx + 1)
      else
        let rest := encryptLoop ks passes (ctx + 1) (m.drop ecryptBlocklength)
        (cryptBlock ks ctx (m.take ecryptBlocklength) ++ rest.1, rest.2)

/-- `ECRYPT_encrypt_bytes` into a buffer of zeros of the size of the data; the number of bytes is
an `u32`. -/
def encryptBytes (ks : Blocks) (ctx : Nat) (m : List UInt8) : List UInt8 × Nat :=
  let bytes := m.take (m.length % 2 ^ 32)
  if bytes = [] then (List.replicate m.length 0, ctx)
  else
    let c := encryptLoop ks bytes.length ctx bytes
    (c.1 ++ List.replicate (m.length - bytes.length) 0, c.2)

/-- `encrypt_chacha_processer_base`: the counter of `m_ctx`, and `m_buff`. -/
structure ChachaProcesser where
  ctx : Nat
  buff : List UInt8
deriving DecidableEq

namespace ChachaProcesser

/-- `process`: the count returned, and the data of the callback if it is called. -/
def process (ks : Blocks) (p : ChachaProcesser) (buf : List UInt8) :
    Nat × Option (List UInt8) × ChachaProcesser :=
  if buf = [] then (0, none, p)
  else if buf.length % ecryptBlocklength = 0 ∧ p.buff = [] then
    let c := encryptBytes ks p.ctx buf
    (buf.length, some c.1, { p with ctx := c.2 })
  else
    let buff := p.buff ++ buf
    let encrCount := buff.length - buff.length % ecryptBlocklength
    if encrCount = 0 then (buf.length, none, { p with buff := buff })
    else
      let c := encryptBytes ks p.ctx (buff.take encrCount)
      (encrCount, some c.1, ⟨c.2, buff.drop encrCount⟩)

/-- `flush`: the data of the callback if it is called. The buffer stays. -/
def flush (ks : Blocks) (p : ChachaProcesser) : Option (List UInt8) × ChachaProcesser :=
  if p.buff = [] then (none, p)
  else
    let c := encryptBytes ks p.ctx p.buff
    (some c.1, { p with ctx := c.2 })

end ChachaProcesser

/-- `encrypt_chacha_out_filter`, with the bytes that its sink holds. -/
structure ChachaOutFilter where
  base : ChachaProcesser
  snk : List UInt8
deriving DecidableEq

namespace ChachaOutFilter

/-- The filter on an empty sink. -/
def empty : ChachaOutFilter := ⟨⟨0, []⟩, []⟩

/-- `write`: the count that it reports. -/
def write (ks : Blocks) (f : ChachaOutFilter) (buf : List UInt8) : Nat × ChachaOutFilter :=
  let r := f.base.process ks buf
  (r.1, ⟨r.2.2, f.snk ++ r.2.1.getD []⟩)

/-- `flush` -/
def flush (ks : Blocks) (f : ChachaOutFilter) : ChachaOutFilter :=
  let r := f.base.flush ks
  ⟨r.2, f.snk ++ r.1.getD []⟩

/-- One write after the other, with the counts reported. -/
def writes (ks : Blocks) (f : ChachaOutFilter) : List (List UInt8) → List Nat × ChachaOutFilter
  | [] => ([], f)
  | buf :: rest =>
      let r := f.write ks buf
      let next := r.2.writes ks rest
      (r.1 :: next.1, next.2)

/-- A number of flushes. -/
def flushes (ks : Blocks) (f : ChachaOutFilter) : Nat → ChachaOutFilter
  | 0 => f
  | k + 1 => (f.flush ks).flushes ks k

end ChachaOutFilter

/-- What the sink holds after writes and flushes. -/
def writtenBytes (ks : Blocks) (chunks : List (List UInt8)) (flushCount : Nat) : List UInt8 :=
  ((ChachaOutFilter.empty.writes ks chunks).2.flushes ks flushCount).snk

/-- What a read throws. -/
inductive ReadFailure where
  /-- `Error in decrypt: check n_lambda == size_to_read_for_decrypt failed` -/
  | wrongSizeDecrypted
  /-- `expected EOF` -/
  | expectedEof
deriving DecidableEq

/-- `encrypt_chacha_in_filter`, with what is left of its source. -/
structure ChachaInFilter where
  base : ChachaProcesser
  buff : List UInt8
  wasEof : Bool
  src : List UInt8
deriving DecidableEq

namespace ChachaInFilter

/-- The filter on a source. -/
def ofSource (src : List UInt8) : ChachaInFilter := ⟨⟨0, []⟩, [], false, src⟩

/-- `withdraw_to_read_buff` -/
def withdraw (f : ChachaInFilter) (n : Nat) : Option (List UInt8) × ChachaInFilter :=
  (some (f.buff.take n), { f with buff := f.buff.drop n })

/-- `size_to_read_for_decrypt` for the bytes that the buffer lacks. -/
def sizeToReadForDecrypt (lacking : Nat) : Nat := lacking + lacking % ecryptBlocklength

/-- `memcpy` of data into a buffer. -/
def place (buff : List UInt8) (offset : Nat) (data : List UInt8) : List UInt8 :=
  buff.take offset ++ data ++ buff.drop (offset + data.length)

/-- The branch of `read` that comes to the end of the source for the first time, with the bytes
that were read and the buffer resized for more. -/
def readLast (ks : Blocks) (f : ChachaInFilter) (n : Nat) (got : List UInt8)
    (offsetInBuff : Nat) (src : List UInt8) :
    Except ReadFailure (Option (List UInt8) × ChachaInFilter) :=
  let processed :=
    if got = [] then (f.buff, offsetInBuff, f.base)
    else
      match f.base.process ks got with
      | (_, none, base) => (f.buff, offsetInBuff, base)
      | (_, some data, base) =>
          (place f.buff offsetInBuff data, offsetInBuff + data.length, base)
  let offsetBeforeFlush := processed.2.1
  let flushed :=
    match processed.2.2.flush ks with
    | (none, base) => (processed.1, base)
    | (some data, base) =>
        ((place processed.1 offsetBeforeFlush data).take (offsetBeforeFlush + data.length), base)
  if src = [] then .ok (withdraw ⟨flushed.2, flushed.1, true, src⟩ n)
  else .error .expectedEof

/-- `read`: the bytes delivered, none for the result `-1`. -/
def read (ks : Blocks) (f : ChachaInFilter) (n : Nat) :
    Except ReadFailure (Option (List UInt8) × ChachaInFilter) :=
  if n ≤ f.buff.length then .ok (f.withdraw n)
  else if f.wasEof ∧ f.buff = [] then .ok (none, f)
  else
    let size := sizeToReadForDecrypt (n - f.buff.length)
    let got := f.src.take size
    let src := f.src.drop size
    if got.length = size then
      match f.base.process ks got with
      | (_, none, base) => .ok (withdraw ⟨base, f.buff ++ got, f.wasEof, src⟩ n)
      | (_, some data, base) =>
          if data.length = size then .ok (withdraw ⟨base, f.buff ++ data, f.wasEof, src⟩ n)
          else .error .wrongSizeDecrypted
    else
      let resized := f.buff ++ got ++ List.replicate (size - got.length) 0
      if f.wasEof then .ok (none, { f with buff := resized, src := src })
      else readLast ks { f with buff := resized } n got f.buff.length src

/-- One read after the other. -/
def reads (ks : Blocks) (f : ChachaInFilter) :
    List Nat → Except ReadFailure (List (Option (List UInt8)))
  | [] => .ok []
  | n :: ns =>
      match f.read ks n with
      | .error e => .error e
      | .ok (out, f') =>
          match f'.reads ks ns with
          | .error e => .error e
          | .ok outs => .ok (out :: outs)

end ChachaInFilter

/-! ### The bytes encrypted -/

section Encryption

variable {ks : Blocks}

theorem encryptLoop_eq {passes : Nat} : ∀ {ctx : Nat} {m : List UInt8}, m ≠ [] →
    m.length ≤ passes →
    encryptLoop ks passes ctx m = (crypt ks (64 * ctx) m, ctx + (m.length + 63) / 64) := by
  induction passes with
  | zero =>
      intro ctx m hm hlen
      exact absurd (List.length_eq_zero_iff.mp (Nat.le_zero.mp hlen)) hm
  | succ passes ih =>
      intro ctx m hm hlen
      have hpos : 0 < m.length := List.length_pos_iff.mpr hm
      rw [encryptLoop]
      by_cases hsmall : m.length ≤ ecryptBlocklength
      · rw [if_pos hsmall, cryptBlock_eq hsmall]
        unfold ecryptBlocklength at hsmall
        rw [show (m.length + 63) / 64 = 1 by omega]
      · rw [if_neg hsmall]
        unfold ecryptBlocklength at hsmall ⊢
        have hdrop : (m.drop 64).length = m.length - 64 := List.length_drop
        have hne : m.drop 64 ≠ [] := by
          intro hnil
          rw [hnil, List.length_nil] at hdrop
          omega
        rw [ih hne (by omega), hdrop, cryptBlock_eq (by simp)]
        have hbytes := @crypt_append ks (64 * ctx) (m.take 64) (m.drop 64)
        rw [List.take_append_drop, List.length_take, Nat.min_eq_left (by omega),
          show 64 * ctx + 64 = 64 * (ctx + 1) by ring] at hbytes
        rw [hbytes]
        simp only [Prod.mk.injEq, true_and]
        omega

/-- Data of less than `2 ^ 32` bytes is encrypted whole, from the block of the counter on. -/
theorem encryptBytes_eq {ctx : Nat} {m : List UInt8} (h : m.length < 2 ^ 32) :
    encryptBytes ks ctx m = (crypt ks (64 * ctx) m, ctx + (m.length + 63) / 64) := by
  have htake : m.take (m.length % 2 ^ 32) = m := by
    rw [Nat.mod_eq_of_lt h, List.take_length]
  simp only [encryptBytes, htake]
  by_cases hm : m = []
  · simp [hm]
  · rw [if_neg hm, encryptLoop_eq hm le_rfl]
    simp

theorem length_encryptBytes (ks : Blocks) (ctx : Nat) (m : List UInt8) :
    (encryptBytes ks ctx m).1.length = m.length := by
  simp only [encryptBytes]
  by_cases hm : m.take (m.length % 2 ^ 32) = []
  · rw [if_pos hm]
    exact List.length_replicate
  · rw [if_neg hm, encryptLoop_eq hm le_rfl]
    simp only [List.length_append, length_crypt, List.length_take, List.length_replicate]
    omega

/-- With a length that does not fit, the bytes from the length that is left of it on are zeros. -/
theorem encryptBytes_zero {ctx : Nat} {m : List UInt8} (h : 2 ^ 32 ≤ m.length) :
    (encryptBytes ks ctx m).1.length = m.length ∧
      (encryptBytes ks ctx m).1[m.length % 2 ^ 32]? = some 0 := by
  have hlt : m.length % 2 ^ 32 < m.length := lt_of_lt_of_le (Nat.mod_lt _ (by decide)) h
  have htake : (m.take (m.length % 2 ^ 32)).length = m.length % 2 ^ 32 := by
    rw [List.length_take, Nat.min_eq_left hlt.le]
  simp only [encryptBytes]
  by_cases hm : m.take (m.length % 2 ^ 32) = []
  · rw [if_pos hm]
    rw [List.getElem?_replicate, if_pos hlt]
    exact ⟨List.length_replicate, rfl⟩
  · rw [if_neg hm, encryptLoop_eq hm le_rfl, htake]
    refine ⟨by simp only [List.length_append, length_crypt, htake, List.length_replicate]; omega, ?_⟩
    rw [List.getElem?_append_right (by rw [length_crypt, htake]), length_crypt, htake,
      Nat.sub_self, List.getElem?_replicate, if_pos (by omega)]

end Encryption

/-- A stream whose bytes are all 255. -/
def onesStream : Blocks := fun _ => Vector.replicate 64 255

theorem crypt_onesStream {i : Nat} {data : List UInt8} (hones : ∀ b ∈ data, b = 1) :
    ∀ b ∈ crypt onesStream i data, b = 254 := by
  induction data generalizing i with
  | nil => simp
  | cons byte data ih =>
      intro b hb
      rcases List.mem_cons.mp hb with rfl | hb
      · have hbyte : byteAt onesStream i = 255 := Vector.getElem_replicate _
        rw [hones byte List.mem_cons_self, hbyte]
        rfl
      · exact ih (fun c hc => hones c (List.mem_cons_of_mem _ hc)) b hb

/-! ### One call of the processer -/

/-- The bytes of the whole blocks of some data. -/
def wholeBlocks (m : List UInt8) : Nat := ecryptBlocklength * (m.length / ecryptBlocklength)

namespace ChachaProcesser

variable {ks : Blocks} {p : ChachaProcesser} {buf : List UInt8}

/-- The whole blocks of what was kept and what comes are encrypted, and the rest is kept. -/
theorem process_whole (hkept : p.buff.length < ecryptBlocklength) :
    (p.process ks buf).2 =
      if wholeBlocks (p.buff ++ buf) = 0 then (none, ⟨p.ctx, p.buff ++ buf⟩)
      else
        (some (encryptBytes ks p.ctx ((p.buff ++ buf).take (wholeBlocks (p.buff ++ buf)))).1,
          ⟨(encryptBytes ks p.ctx ((p.buff ++ buf).take (wholeBlocks (p.buff ++ buf)))).2,
            (p.buff ++ buf).drop (wholeBlocks (p.buff ++ buf))⟩) := by
  have hdiv : wholeBlocks (p.buff ++ buf) = 64 * ((p.buff ++ buf).length / 64) := rfl
  have hcount : (p.buff ++ buf).length - (p.buff ++ buf).length % ecryptBlocklength =
      wholeBlocks (p.buff ++ buf) := by
    unfold ecryptBlocklength
    omega
  rw [process]
  by_cases hnil : buf = []
  · have hsize : (p.buff ++ buf).length = p.buff.length := by rw [hnil, List.append_nil]
    have hkept' : p.buff.length < 64 := hkept
    have hzero : wholeBlocks (p.buff ++ buf) = 0 := by omega
    rw [if_pos hnil, if_pos hzero, hnil, List.append_nil]
  rw [if_neg hnil]
  have hpos : 0 < buf.length := List.length_pos_iff.mpr hnil
  by_cases hblocks : buf.length % ecryptBlocklength = 0 ∧ p.buff = []
  · rw [if_pos hblocks]
    have hbuf : p.buff ++ buf = buf := by rw [hblocks.2, List.nil_append]
    have hmod : buf.length % 64 = 0 := hblocks.1
    have hwhole : wholeBlocks (p.buff ++ buf) = buf.length := by
      rw [hbuf] at hdiv ⊢
      omega
    rw [if_neg (by omega), hwhole, hbuf, List.take_length, List.drop_length]
    simp only [hblocks.2]
  · rw [if_neg hblocks]
    simp only [hcount]
    by_cases hzero : wholeBlocks (p.buff ++ buf) = 0
    · rw [if_pos hzero, if_pos hzero]
    · rw [if_neg hzero, if_neg hzero]

/-- Whole blocks of less than `2 ^ 32` bytes are encrypted from the block of the counter on. -/
theorem process_eq (hkept : p.buff.length < ecryptBlocklength)
    (hsmall : wholeBlocks (p.buff ++ buf) < 2 ^ 32) :
    (p.process ks buf).2 =
      (if wholeBlocks (p.buff ++ buf) = 0 then none
        else some (crypt ks (64 * p.ctx) ((p.buff ++ buf).take (wholeBlocks (p.buff ++ buf)))),
      ⟨p.ctx + (p.buff ++ buf).length / 64,
        (p.buff ++ buf).drop (wholeBlocks (p.buff ++ buf))⟩) := by
  have hdiv : wholeBlocks (p.buff ++ buf) = 64 * ((p.buff ++ buf).length / 64) := rfl
  rw [process_whole hkept]
  by_cases hzero : wholeBlocks (p.buff ++ buf) = 0
  · have hquot : (p.buff ++ buf).length / 64 = 0 := by omega
    rw [if_pos hzero, if_pos hzero, hzero, hquot]
    rfl
  · have htake : ((p.buff ++ buf).take (wholeBlocks (p.buff ++ buf))).length =
        wholeBlocks (p.buff ++ buf) := by
      rw [List.length_take, Nat.min_eq_left (by omega)]
    have hbytes := @encryptBytes_eq ks p.ctx _ (htake.trans_lt hsmall)
    rw [if_neg hzero, if_neg hzero, hbytes, htake,
      show (wholeBlocks (p.buff ++ buf) + 63) / 64 = (p.buff ++ buf).length / 64 by omega]

/-- What is kept is less than a block, whatever is written. -/
theorem length_buff_process :
    (p.process ks buf).2.2.buff.length =
      if buf = [] then p.buff.length else (p.buff.length + buf.length) % ecryptBlocklength := by
  rw [process]
  by_cases hnil : buf = []
  · rw [if_pos hnil, if_pos hnil]
  rw [if_neg hnil, if_neg hnil]
  by_cases hblocks : buf.length % ecryptBlocklength = 0 ∧ p.buff = []
  · rw [if_pos hblocks]
    simp [hblocks.1, hblocks.2]
  · rw [if_neg hblocks]
    simp only [List.length_append]
    by_cases hzero : p.buff.length + buf.length -
        (p.buff.length + buf.length) % ecryptBlocklength = 0
    · rw [if_pos hzero, List.length_append]
      have := Nat.mod_le (p.buff.length + buf.length) ecryptBlocklength
      omega
    · rw [if_neg hzero]
      simp only [List.length_drop, List.length_append]
      have := Nat.mod_le (p.buff.length + buf.length) ecryptBlocklength
      omega

/-- The count returned is the size exactly when the call completes no block or only whole blocks
come. -/
theorem process_count_iff (hkept : p.buff.length < ecryptBlocklength) :
    (p.process ks buf).1 = buf.length ↔
      buf.length % ecryptBlocklength = 0 ∨ p.buff.length + buf.length < ecryptBlocklength := by
  rw [process]
  by_cases hnil : buf = []
  · rw [if_pos hnil]
    simp [hnil]
  rw [if_neg hnil]
  by_cases hblocks : buf.length % ecryptBlocklength = 0 ∧ p.buff = []
  · rw [if_pos hblocks]
    simp [hblocks.1]
  · rw [if_neg hblocks]
    have hpos : 0 < buf.length := List.length_pos_iff.mpr hnil
    simp only [List.length_append]
    unfold ecryptBlocklength at *
    by_cases hzero : p.buff.length + buf.length - (p.buff.length + buf.length) % 64 = 0
    · rw [if_pos hzero]
      exact ⟨fun _ => by omega, fun _ => rfl⟩
    · rw [if_neg hzero]
      show _ - _ = _ ↔ _
      omega

/-- A call of a size that does not fit writes a zero among the encrypted bytes. -/
theorem process_zero (hsize : 2 ^ 32 ≤ buf.length)
    (hcount : (p.process ks buf).1 = buf.length) :
    ∃ data, (p.process ks buf).2.1 = some data ∧ (0 : UInt8) ∈ data := by
  have hnil : buf ≠ [] := by
    rintro rfl
    simp at hsize
  have hmem : ∀ (ctx : Nat) (m : List UInt8), 2 ^ 32 ≤ m.length →
      (0 : UInt8) ∈ (encryptBytes ks ctx m).1 := fun ctx m hm =>
    List.mem_of_getElem? (encryptBytes_zero hm).2
  rw [process, if_neg hnil] at hcount ⊢
  by_cases hblocks : buf.length % ecryptBlocklength = 0 ∧ p.buff = []
  · rw [if_pos hblocks]
    exact ⟨_, rfl, hmem _ _ hsize⟩
  · rw [if_neg hblocks] at hcount ⊢
    have hle : buf.length ≤ (p.buff ++ buf).length := by
      rw [List.length_append]
      omega
    have hmod := Nat.mod_lt (p.buff ++ buf).length (show 0 < ecryptBlocklength by decide)
    unfold ecryptBlocklength at *
    by_cases hzero : (p.buff ++ buf).length - (p.buff ++ buf).length % 64 = 0
    · omega
    · simp only [if_neg hzero] at hcount ⊢
      refine ⟨_, rfl, hmem _ _ ?_⟩
      rw [List.length_take]
      omega

end ChachaProcesser

/-! ### The bytes written -/

/-- Writes whose counts are the sizes: one that does not end a block must not reach its end. -/
def WritesFit : Nat → List Nat → Prop
  | _, [] => True
  | position, n :: ns =>
      (n % ecryptBlocklength = 0 ∨ position % ecryptBlocklength + n < ecryptBlocklength) ∧
        WritesFit (position + n) ns

namespace ChachaOutFilter

variable {ks : Blocks} {f : ChachaOutFilter} {plain : List UInt8}

/-- The filter has written the whole blocks of the bytes that it got and keeps the others. -/
structure Holds (ks : Blocks) (f : ChachaOutFilter) (plain : List UInt8) : Prop where
  ctx : f.base.ctx = plain.length / 64
  buff : f.base.buff = plain.drop (wholeBlocks plain)
  snk : f.snk = crypt ks 0 (plain.take (wholeBlocks plain))

theorem holds_empty : Holds ks empty [] := ⟨rfl, rfl, rfl⟩

theorem wholeBlocks_le (m : List UInt8) : wholeBlocks m ≤ m.length :=
  Nat.mul_div_le m.length ecryptBlocklength

theorem length_drop_wholeBlocks (m : List UInt8) :
    (m.drop (wholeBlocks m)).length = m.length % 64 := by
  have hdiv : wholeBlocks m = 64 * (m.length / 64) := rfl
  rw [List.length_drop]
  omega

theorem Holds.length_buff (h : Holds ks f plain) : f.base.buff.length = plain.length % 64 := by
  rw [h.buff, length_drop_wholeBlocks]

theorem Holds.write (h : Holds ks f plain) {buf : List UInt8} (hsmall : buf.length < 2 ^ 32)
    (hfit : buf.length % ecryptBlocklength = 0 ∨
      plain.length % ecryptBlocklength + buf.length < ecryptBlocklength) :
    Holds ks (f.write ks buf).2 (plain ++ buf) := by
  have hlen := h.length_buff
  have hkept : f.base.buff.length < ecryptBlocklength := by
    rw [hlen]
    exact Nat.mod_lt _ (by decide)
  have hall : (f.base.buff ++ buf).length = plain.length % 64 + buf.length := by
    rw [List.length_append, hlen]
  have hnew : wholeBlocks (f.base.buff ++ buf) = 64 * ((f.base.buff ++ buf).length / 64) := rfl
  have hold : wholeBlocks plain = 64 * (plain.length / 64) := rfl
  have hsum : wholeBlocks (plain ++ buf) = 64 * ((plain.length + buf.length) / 64) := by
    rw [← List.length_append]
    rfl
  have hblocks : wholeBlocks (f.base.buff ++ buf) < 2 ^ 32 := by
    have hfit' : buf.length % 64 = 0 ∨ plain.length % 64 + buf.length < 64 := hfit
    omega
  have hprocess := @ChachaProcesser.process_eq ks f.base buf hkept hblocks
  have hsplit : plain ++ buf = plain.take (wholeBlocks plain) ++ (f.base.buff ++ buf) := by
    rw [h.buff, ← List.append_assoc, List.take_append_drop]
  have htaken : (plain.take (wholeBlocks plain)).length = wholeBlocks plain := by
    rw [List.length_take, Nat.min_eq_left (wholeBlocks_le plain)]
  have htotal : wholeBlocks (plain ++ buf) =
      (plain.take (wholeBlocks plain)).length + wholeBlocks (f.base.buff ++ buf) := by
    rw [htaken]
    omega
  have hdata : (f.base.process ks buf).2.1.getD [] = crypt ks (64 * f.base.ctx)
      ((f.base.buff ++ buf).take (wholeBlocks (f.base.buff ++ buf))) := by
    rw [hprocess]
    by_cases hzero : wholeBlocks (f.base.buff ++ buf) = 0
    · rw [if_pos hzero, hzero]
      rfl
    · rw [if_neg hzero]
      rfl
  refine ⟨?_, ?_, ?_⟩
  · show (f.base.process ks buf).2.2.ctx = _
    have hlength : (plain ++ buf).length = plain.length + buf.length := List.length_append
    rw [hprocess, hlength]
    show f.base.ctx + _ = _
    rw [h.ctx]
    omega
  · show (f.base.process ks buf).2.2.buff = _
    rw [hprocess, htotal, hsplit, List.drop_length_add_append]
  · show f.snk ++ (f.base.process ks buf).2.1.getD [] = _
    rw [hdata, h.snk, htotal, hsplit, List.take_length_add_append, crypt_append, htaken, h.ctx,
      Nat.zero_add, hold]

/-- The counts of the writes are the sizes exactly when the writes fit. -/
theorem writes_counts_iff {chunks : List (List UInt8)} {position : Nat}
    (h : f.base.buff.length = position % ecryptBlocklength) :
    (f.writes ks chunks).1 = chunks.map List.length ↔
      WritesFit position (chunks.map List.length) := by
  induction chunks generalizing f position with
  | nil => simp [writes, WritesFit]
  | cons buf rest ih =>
      have hkept : f.base.buff.length < ecryptBlocklength := by
        rw [h]
        exact Nat.mod_lt _ (by decide)
      have hnext : (f.write ks buf).2.base.buff.length =
          (position + buf.length) % ecryptBlocklength := by
        show (f.base.process ks buf).2.2.buff.length = _
        rw [ChachaProcesser.length_buff_process, h]
        by_cases hnil : buf = []
        · rw [if_pos hnil, hnil]
          rfl
        · rw [if_neg hnil, Nat.mod_add_mod]
      rw [writes, List.map_cons, WritesFit, ← h, ← ih hnext, List.cons.injEq]
      exact and_congr_left fun _ => ChachaProcesser.process_count_iff hkept

theorem Holds.writes (h : Holds ks f plain) {chunks : List (List UInt8)}
    (hsmall : ∀ buf ∈ chunks, buf.length < 2 ^ 32)
    (hfit : WritesFit plain.length (chunks.map List.length)) :
    Holds ks (f.writes ks chunks).2 (plain ++ chunks.flatten) := by
  induction chunks generalizing f plain with
  | nil => simpa [ChachaOutFilter.writes] using h
  | cons buf rest ih =>
      have hnext := h.write (hsmall buf List.mem_cons_self) hfit.1
      have hrest := ih hnext (fun b hb => hsmall b (List.mem_cons_of_mem _ hb))
        (by rw [List.length_append]; exact hfit.2)
      rw [List.append_assoc] at hrest
      exact hrest

theorem mem_snk_writes {b : UInt8} (hb : b ∈ f.snk) (chunks : List (List UInt8)) :
    b ∈ (f.writes ks chunks).2.snk := by
  induction chunks generalizing f with
  | nil => exact hb
  | cons buf rest ih => exact ih (List.mem_append_left _ hb)

theorem mem_snk_flushes {b : UInt8} (hb : b ∈ f.snk) (flushCount : Nat) :
    b ∈ (f.flushes ks flushCount).snk := by
  induction flushCount generalizing f with
  | zero => exact hb
  | succ k ih => exact ih (List.mem_append_left _ hb)

/-- A write of a size that does not fit brings a zero into the sink. -/
theorem zero_mem_snk_writes {chunks : List (List UInt8)}
    (hcounts : (f.writes ks chunks).1 = chunks.map List.length)
    (hlarge : ∃ buf ∈ chunks, 2 ^ 32 ≤ buf.length) : (0 : UInt8) ∈ (f.writes ks chunks).2.snk := by
  induction chunks generalizing f with
  | nil =>
      obtain ⟨buf, hbuf, -⟩ := hlarge
      cases hbuf
  | cons first rest ih =>
      rw [writes, List.map_cons, List.cons.injEq] at hcounts
      obtain ⟨buf, hbuf, hlen⟩ := hlarge
      rcases List.mem_cons.mp hbuf with rfl | hbuf
      · obtain ⟨data, hdata, hzero⟩ := ChachaProcesser.process_zero hlen hcounts.1
        refine mem_snk_writes (List.mem_append_right _ ?_) rest
        rw [hdata]
        exact hzero
      · exact ih hcounts.2 ⟨buf, hbuf, hlen⟩

/-- A flush writes what is kept once more. -/
theorem Holds.flushes (h : Holds ks f plain) (flushCount : Nat) :
    ∃ tails : List (List UInt8), tails.length = flushCount ∧
      (∀ tail ∈ tails, tail.length = plain.length % 64) ∧
      (f.flushes ks flushCount).snk = f.snk ++ tails.flatten ∧
      tails.head? = if flushCount = 0 then none
        else some (crypt ks (wholeBlocks plain) (plain.drop (wholeBlocks plain))) := by
  have hstep : ∀ (k : Nat) (g : ChachaOutFilter), g.base.buff = f.base.buff →
      ∃ tails : List (List UInt8), tails.length = k ∧
        (∀ tail ∈ tails, tail.length = plain.length % 64) ∧
        (g.flushes ks k).snk = g.snk ++ tails.flatten ∧
        tails.head? = if k = 0 then none else some (crypt ks (64 * g.base.ctx) f.base.buff) := by
    intro k
    induction k with
    | zero => exact fun g _ => ⟨[], rfl, by simp, by simp [ChachaOutFilter.flushes], rfl⟩
    | succ k ih =>
        intro g hg
        have hlen : g.base.buff.length = plain.length % 64 := by rw [hg, h.length_buff]
        have hflush : (g.flush ks).base.buff = f.base.buff ∧
            (g.flush ks).snk = g.snk ++ crypt ks (64 * g.base.ctx) g.base.buff := by
          simp only [ChachaOutFilter.flush, ChachaProcesser.flush]
          by_cases hnil : g.base.buff = []
          · rw [if_pos hnil, hnil]
            exact ⟨hg ▸ hnil ▸ hnil.symm ▸ rfl, rfl⟩
          · rw [if_neg hnil, encryptBytes_eq (by rw [hlen]; omega)]
            exact ⟨hg, rfl⟩
        obtain ⟨tails, hcount, htail, hsnk, -⟩ := ih (g.flush ks) hflush.1
        refine ⟨crypt ks (64 * g.base.ctx) g.base.buff :: tails, by rw [List.length_cons, hcount],
          ?_, ?_, ?_⟩
        · intro tail hmem
          rcases List.mem_cons.mp hmem with rfl | hmem
          · rw [length_crypt, hlen]
          · exact htail tail hmem
        · rw [ChachaOutFilter.flushes, hsnk, hflush.2, List.flatten_cons, List.append_assoc]
        · rw [if_neg (Nat.succ_ne_zero k), List.head?_cons, hg]
  obtain ⟨tails, hcount, htail, hsnk, hhead⟩ := hstep flushCount f rfl
  have hctx : 64 * f.base.ctx = wholeBlocks plain := by
    rw [h.ctx]
    rfl
  rw [hctx, h.buff] at hhead
  exact ⟨tails, hcount, htail, hsnk, hhead⟩

/-- The sink holds the whole plaintext, encrypted, exactly when there was one flush or nothing is
left to flush. -/
theorem Holds.snk_flushes_iff (h : Holds ks f plain) (flushCount : Nat) :
    (f.flushes ks flushCount).snk = crypt ks 0 plain ↔
      plain.length % 64 = 0 ∨ flushCount = 1 := by
  obtain ⟨tails, hcount, htail, hsnk, hhead⟩ := h.flushes flushCount
  have hold : wholeBlocks plain = 64 * (plain.length / 64) := rfl
  have htaken : (plain.take (wholeBlocks plain)).length = wholeBlocks plain := by
    rw [List.length_take, Nat.min_eq_left (wholeBlocks_le plain)]
  have hplain : crypt ks 0 plain =
      f.snk ++ crypt ks (wholeBlocks plain) (plain.drop (wholeBlocks plain)) := by
    have happ := @crypt_append ks 0 (plain.take (wholeBlocks plain))
      (plain.drop (wholeBlocks plain))
    rw [List.take_append_drop, htaken, Nat.zero_add] at happ
    rw [happ, h.snk]
  have hlen : tails.flatten.length = flushCount * (plain.length % 64) := by
    rw [List.length_flatten, List.map_eq_replicate_iff.mpr htail, List.sum_replicate_nat, hcount]
  rw [hsnk, hplain, List.append_cancel_left_eq]
  constructor
  · intro heq
    have hsize := congrArg List.length heq
    rw [hlen, length_crypt, length_drop_wholeBlocks] at hsize
    rcases Nat.eq_zero_or_pos (plain.length % 64) with hzero | hpos
    · exact Or.inl hzero
    · exact Or.inr (Nat.eq_of_mul_eq_mul_right hpos (by rw [hsize, Nat.one_mul]))
  · rintro (hzero | rfl)
    · have hnil : tails.flatten = [] := by
        rw [← List.length_eq_zero_iff, hlen, hzero, Nat.mul_zero]
      have htailnil : plain.drop (wholeBlocks plain) = [] := by
        rw [← List.length_eq_zero_iff, length_drop_wholeBlocks, hzero]
      rw [hnil, htailnil, crypt_nil]
    · match tails, hcount, hhead with
      | [tail], _, hhead =>
          rw [List.head?_cons, if_neg Nat.one_ne_zero, Option.some.injEq] at hhead
          rw [hhead, List.flatten_singleton]

end ChachaOutFilter

/-! ### The bytes read -/

/-- What a read of some bytes delivers of the rest of the plaintext: nothing but the end of file
where nothing is left. -/
def deliveredOf (rest : List UInt8) (n : Nat) : Option (List UInt8) :=
  if n = 0 then some [] else if rest = [] then none else some (rest.take n)

/-- What the reads deliver of a plaintext. -/
def deliveredAll : List UInt8 → List Nat → List (Option (List UInt8))
  | _, [] => []
  | rest, n :: ns => deliveredOf rest n :: deliveredAll (rest.drop n) ns

/-- Where the reading stands: the bytes decrypted ahead and those still in the source, or, past
the end of the source, the bytes left and the zeros behind them. -/
inductive ReadState where
  | before (ahead source : Nat)
  | after (ahead zeros : Nat)
deriving DecidableEq

/-- The state after a read of some bytes, none where the read goes wrong. -/
def readStep : ReadState → Nat → Option ReadState
  | .before ahead source, n =>
      let size := ChachaInFilter.sizeToReadForDecrypt (n - ahead)
      if n ≤ ahead then some (.before (ahead - n) source)
      else if size ≤ source then
        if size % ecryptBlocklength = 0 ∧ size < 2 ^ 32 then
          some (.before (ahead + size - n) (source - size))
        else none
      else if 2 ^ 32 ≤ source then none
      else if source % ecryptBlocklength ≠ 0 then some (.after (ahead + source - n) 0)
      else if n ≤ ahead + source then some (.after (ahead + source - n) (size - source))
      else none
  | .after ahead zeros, n =>
      if n ≤ ahead then some (.after (ahead - n) zeros)
      else if ahead = 0 ∧ zeros = 0 then some (.after 0 0)
      else if ahead = 0 ∧ zeros < n then
        some (.after 0 (zeros + ChachaInFilter.sizeToReadForDecrypt (n - zeros)))
      else none

/-- Reads none of which goes wrong. -/
def ReadsFit (s : ReadState) (ns : List Nat) : Prop := (ns.foldlM readStep s).isSome

namespace ChachaInFilter

variable {ks : Blocks} {f : ChachaInFilter} {rest : List UInt8}

/-- The filter is in a state, with the rest of the plaintext to deliver. -/
def Matches (ks : Blocks) (f : ChachaInFilter) (rest : List UInt8) : ReadState → Prop
  | .before ahead source =>
      f.wasEof = false ∧ f.base.buff = [] ∧ f.buff = rest.take ahead ∧
        rest.length = ahead + source ∧ f.src = crypt ks (64 * f.base.ctx) (rest.drop ahead)
  | .after ahead zeros =>
      f.wasEof = true ∧ f.src = [] ∧ f.buff = rest ++ List.replicate zeros 0 ∧
        rest.length = ahead

theorem Matches.length_buff {ahead source : Nat} (h : Matches ks f rest (.before ahead source)) :
    f.buff.length = ahead := by
  obtain ⟨-, -, hbuff, hlen, -⟩ := h
  rw [hbuff, List.length_take, hlen, Nat.min_eq_left (Nat.le_add_right _ _)]

theorem Matches.length_src {ahead source : Nat} (h : Matches ks f rest (.before ahead source)) :
    f.src.length = source := by
  obtain ⟨-, -, -, hlen, hsrc⟩ := h
  rw [hsrc, length_crypt, List.length_drop, hlen, Nat.add_sub_cancel_left]

theorem place_append (a data x : List UInt8) :
    place (a ++ x) a.length data = a ++ data ++ x.drop data.length := by
  rw [place, List.take_left, List.drop_length_add_append]

theorem deliveredOf_pos {n : Nat} (hn : n ≠ 0) (hrest : rest ≠ []) :
    deliveredOf rest n = some (rest.take n) := by
  rw [deliveredOf, if_neg hn, if_neg hrest]

/-- A read that the bytes decrypted ahead suffice for. -/
theorem read_ahead {n : Nat} (h : n ≤ f.buff.length) :
    f.read ks n = .ok (some (f.buff.take n), { f with buff := f.buff.drop n }) := by
  rw [read, if_pos h]
  rfl

/-- A read of whole blocks. -/
theorem read_blocks {ahead source n : Nat} (h : Matches ks f rest (.before ahead source))
    (hn : ahead < n) (hsize : sizeToReadForDecrypt (n - ahead) ≤ source)
    (hmod : sizeToReadForDecrypt (n - ahead) % ecryptBlocklength = 0)
    (hsmall : sizeToReadForDecrypt (n - ahead) < 2 ^ 32) :
    ∃ f', f.read ks n = .ok (some (rest.take n), f') ∧
      Matches ks f' (rest.drop n)
        (.before (ahead + sizeToReadForDecrypt (n - ahead) - n)
          (source - sizeToReadForDecrypt (n - ahead))) := by
  have hahead := h.length_buff
  have hsrclen := h.length_src
  obtain ⟨heof, hbase, hbuff, hlen, hsrc⟩ := h
  have hlack : n - ahead ≤ sizeToReadForDecrypt (n - ahead) := Nat.le_add_right _ _
  generalize hk : sizeToReadForDecrypt (n - ahead) = size at *
  have hgot : f.src.take size = crypt ks (64 * f.base.ctx) ((rest.drop ahead).take size) := by
    rw [hsrc, take_crypt]
  have hgotlen : (f.src.take size).length = size := by
    rw [List.length_take, hsrclen, Nat.min_eq_left hsize]
  have hmod' : size % 64 = 0 := hmod
  have hwhole : wholeBlocks (f.base.buff ++ f.src.take size) = size := by
    rw [hbase, List.nil_append]
    show 64 * ((f.src.take size).length / 64) = size
    omega
  have hprocess := @ChachaProcesser.process_eq ks f.base (f.src.take size)
    (by rw [hbase]; decide) (by rw [hwhole]; exact hsmall)
  have hplain : crypt ks (64 * f.base.ctx) (f.src.take size) = (rest.drop ahead).take size := by
    rw [hgot, crypt_crypt]
  rw [if_neg (by omega), hwhole, hbase, List.nil_append, hgotlen,
    List.take_of_length_le hgotlen.le, List.drop_eq_nil_of_le hgotlen.le, hplain] at hprocess
  rcases hres : f.base.process ks (f.src.take size) with ⟨count, out, base⟩
  rw [hres, Prod.mk.injEq] at hprocess
  obtain ⟨rfl, rfl⟩ := hprocess
  have hdata : ((rest.drop ahead).take size).length = size := by
    rw [← hplain, length_crypt, hgotlen]
  have hjoin : rest.take ahead ++ (rest.drop ahead).take size = rest.take (ahead + size) :=
    (List.take_add ..).symm
  refine ⟨withdraw ⟨⟨f.base.ctx + size / 64, []⟩, f.buff ++ (rest.drop ahead).take size, f.wasEof,
    f.src.drop size⟩ n |>.2, ?_, heof, rfl, ?_, ?_, ?_⟩
  · rw [read, if_neg (by omega), if_neg (by rw [heof]; simp)]
    simp only [hahead, hk, if_pos hgotlen, hres, if_pos hdata]
    rw [withdraw, hbuff, hjoin, List.take_take, Nat.min_eq_left (by omega)]
  · show (f.buff ++ (rest.drop ahead).take size).drop n = _
    rw [hbuff, hjoin, List.drop_take]
  · rw [List.length_drop]
    omega
  · show f.src.drop size = _
    rw [hsrc, drop_crypt, List.drop_drop, List.drop_drop]
    congr 1
    · show _ = 64 * (f.base.ctx + size / 64)
      omega
    · congr 1
      omega

theorem flush_crypt {p : ChachaProcesser} {x : List UInt8} (hsmall : x.length < 2 ^ 32)
    (hbuff : p.buff = crypt ks (64 * p.ctx) x) :
    ∃ base, p.flush ks = (if x = [] then none else some x, base) := by
  rw [ChachaProcesser.flush]
  by_cases hnil : x = []
  · have hempty : p.buff = [] := by rw [hbuff, hnil, crypt_nil]
    exact ⟨p, by rw [if_pos hempty, if_pos hnil]⟩
  · have hne : p.buff ≠ [] := by
      intro h
      have hlen := congrArg List.length (hbuff.symm.trans h)
      rw [length_crypt, List.length_nil] at hlen
      exact hnil (List.length_eq_zero_iff.mp hlen)
    refine ⟨{ p with ctx := (encryptBytes ks p.ctx p.buff).2 }, ?_⟩
    rw [if_neg hne, if_neg hnil]
    simp only [hbuff, encryptBytes_eq (show (crypt ks (64 * p.ctx) x).length < 2 ^ 32 by
      rw [length_crypt]; exact hsmall), crypt_crypt]

/-- The bytes that are decrypted at the end of the source, over the garbage of the buffer: the
flush cuts the garbage off, and there is none where whole blocks were left. -/
theorem readLast_eq {p : ChachaProcesser} {kept garbage tail : List UInt8} {n : Nat}
    (hbase : p.buff = []) (hsmall : tail.length < 2 ^ 32) :
    ∃ base, readLast ks ⟨p, kept ++ garbage, false, []⟩ n (crypt ks (64 * p.ctx) tail)
        kept.length [] =
      .ok (withdraw ⟨base, kept ++ tail ++
        (if tail.length % 64 = 0 then garbage.drop tail.length else []), true, []⟩ n) := by
  have hwhole : wholeBlocks (crypt ks (64 * p.ctx) tail) = 64 * (tail.length / 64) := by
    rw [wholeBlocks, length_crypt]
    rfl
  by_cases hnil : tail = []
  · refine ⟨p, ?_⟩
    rw [readLast]
    simp [hnil, ChachaProcesser.flush, hbase]
  have hcrypt : crypt ks (64 * p.ctx) tail ≠ [] := by
    intro h
    have := congrArg List.length h
    rw [length_crypt, List.length_nil] at this
    exact hnil (List.length_eq_zero_iff.mp this)
  have hprocess := @ChachaProcesser.process_eq ks p (crypt ks (64 * p.ctx) tail)
    (by rw [hbase]; decide) (by rw [hbase, List.nil_append, hwhole]; omega)
  rw [hbase, List.nil_append, hwhole, take_crypt, drop_crypt, length_crypt, crypt_crypt] at hprocess
  rcases hres : p.process ks (crypt ks (64 * p.ctx) tail) with ⟨count, out, base⟩
  rw [hres, Prod.mk.injEq] at hprocess
  obtain ⟨rfl, rfl⟩ := hprocess
  have hpos : 0 < tail.length := List.length_pos_iff.mpr hnil
  obtain ⟨base, hflush⟩ := @flush_crypt ks
    ⟨p.ctx + tail.length / 64,
      crypt ks (64 * p.ctx + 64 * (tail.length / 64)) (tail.drop (64 * (tail.length / 64)))⟩
    (tail.drop (64 * (tail.length / 64))) (by rw [List.length_drop]; omega)
    (by rw [Nat.mul_add])
  refine ⟨base, ?_⟩
  rw [readLast, if_neg hcrypt]
  by_cases hzero : 64 * (tail.length / 64) = 0
  · -- less than a block: only the flush decrypts
    have hmod : tail.length % 64 ≠ 0 := by omega
    rw [hzero, List.drop_zero, if_neg hnil] at hflush
    rw [hzero, if_pos rfl] at hres
    simp only [hres, List.drop_zero, hflush, place_append, if_neg hmod]
    rw [if_pos trivial, List.append_nil, ← List.length_append, List.take_left]
  · have hplaced : place (kept ++ garbage) kept.length (tail.take (64 * (tail.length / 64))) =
        kept ++ tail.take (64 * (tail.length / 64)) ++ garbage.drop (64 * (tail.length / 64)) := by
      rw [place_append, List.length_take, Nat.min_eq_left (by omega)]
    have hsum : kept.length + (tail.take (64 * (tail.length / 64))).length =
        (kept ++ tail.take (64 * (tail.length / 64))).length := by rw [List.length_append]
    rw [if_neg hzero] at hres
    simp only [hres, hflush, hplaced, hsum]
    by_cases hmod : tail.length % 64 = 0
    · -- whole blocks: nothing is left to flush
      have hfull : 64 * (tail.length / 64) = tail.length := by omega
      rw [hfull, List.drop_length, List.take_length, if_pos rfl, if_pos hmod]
      rfl
    · have hleft : tail.drop (64 * (tail.length / 64)) ≠ [] := by
        intro h
        have hlen := congrArg List.length h
        rw [List.length_drop, List.length_nil] at hlen
        omega
      simp only [if_neg hleft, if_neg hmod, place_append]
      rw [if_pos trivial, List.append_nil, ← List.length_append, List.take_left, List.append_assoc,
        List.take_append_drop]

/-- The read that comes to the end of the source. -/
theorem read_last {ahead source n : Nat} (h : Matches ks f rest (.before ahead source))
    (hn : ahead < n) (hsize : source < sizeToReadForDecrypt (n - ahead)) (hsmall : source < 2 ^ 32) :
    ∃ base, f.read ks n = .ok (withdraw ⟨base, rest ++
      (if source % 64 = 0 then List.replicate (sizeToReadForDecrypt (n - ahead) - source) 0
        else []), true, []⟩ n) := by
  have hahead := h.length_buff
  have hsrclen := h.length_src
  obtain ⟨heof, hbase, hbuff, hlen, hsrc⟩ := h
  have htail : (rest.drop ahead).length = source := by
    rw [List.length_drop]
    omega
  rw [read, if_neg (by omega), if_neg (by rw [heof]; simp), hahead]
  generalize sizeToReadForDecrypt (n - ahead) = size at *
  have hgot : f.src.take size = f.src := List.take_of_length_le (by omega)
  have hleft : f.src.drop size = [] := List.drop_eq_nil_of_le (by omega)
  simp only [hgot, hleft]
  rw [if_neg (by omega), if_neg (by rw [heof]; decide), List.append_assoc]
  obtain ⟨base, hread⟩ := @readLast_eq ks f.base f.buff
    (f.src ++ List.replicate (size - f.src.length) 0) (rest.drop ahead) n hbase (by omega)
  refine ⟨base, ?_⟩
  rw [← hsrc, hahead, htail, hbuff, List.take_append_drop, ← hsrclen, List.drop_left] at hread
  rw [heof, hbuff, hsrclen] at *
  exact hread

theorem deliveredOf_of_le {n : Nat} (h : n ≤ rest.length) :
    deliveredOf rest n = some (rest.take n) := by
  by_cases hn : n = 0
  · rw [deliveredOf, if_pos hn, hn, List.take_zero]
  · exact deliveredOf_pos hn (List.ne_nil_of_length_pos (by omega))

/-- A read that does not go wrong delivers the next bytes of the plaintext. -/
theorem read_step {s s' : ReadState} {n : Nat} (h : Matches ks f rest s)
    (hstep : readStep s n = some s') :
    ∃ f', f.read ks n = .ok (deliveredOf rest n, f') ∧ Matches ks f' (rest.drop n) s' := by
  cases s with
  | before ahead source =>
      have hfull := h
      obtain ⟨heof, hbase, hbuff, hlen, hsrc⟩ := h
      simp only [readStep] at hstep
      -- first case: what was read ahead is enough
      by_cases hahead : n ≤ ahead
      · rw [if_pos hahead] at hstep
        obtain rfl := Option.some.inj hstep
        have hbufflen : n ≤ f.buff.length := by
          rw [hfull.length_buff]
          exact hahead
        rw [read_ahead hbufflen, deliveredOf_of_le (by omega), hbuff, List.take_take,
          Nat.min_eq_left hahead]
        refine ⟨_, rfl, heof, hbase, List.drop_take, ?_, ?_⟩
        · rw [List.length_drop]
          omega
        · rw [List.drop_drop, Nat.add_sub_cancel' hahead]
          exact hsrc
      have hlack : n - ahead ≤ sizeToReadForDecrypt (n - ahead) := Nat.le_add_right _ _
      rw [if_neg hahead] at hstep
      -- second case: the file still has all the blocks that are asked for
      by_cases hblocks : sizeToReadForDecrypt (n - ahead) ≤ source
      · rw [if_pos hblocks] at hstep
        by_cases hmod : sizeToReadForDecrypt (n - ahead) % ecryptBlocklength = 0 ∧
            sizeToReadForDecrypt (n - ahead) < 2 ^ 32
        · rw [if_pos hmod] at hstep
          obtain rfl := Option.some.inj hstep
          rw [deliveredOf_of_le (by omega)]
          exact read_blocks hfull (by omega) hblocks hmod.1 hmod.2
        · rw [if_neg hmod] at hstep
          cases hstep
      rw [if_neg hblocks] at hstep
      -- otherwise the file ends in this read, and the filter sees the last block
      by_cases hlarge : 2 ^ 32 ≤ source
      · rw [if_pos hlarge] at hstep
        cases hstep
      rw [if_neg hlarge] at hstep
      obtain ⟨base, hread⟩ := @read_last ks f rest ahead source n hfull (by omega) (by omega) (by omega)
      by_cases hpart : source % ecryptBlocklength ≠ 0
      · rw [if_pos hpart] at hstep
        obtain rfl := Option.some.inj hstep
        have hsource : source % 64 ≠ 0 := hpart
        rw [if_neg hsource, List.append_nil] at hread
        have hrest : rest ≠ [] := List.ne_nil_of_length_pos (by omega)
        have hn : n ≠ 0 := by omega
        rw [hread, deliveredOf_pos hn hrest]
        refine ⟨_, rfl, rfl, rfl, ?_, ?_⟩
        · rw [List.replicate_zero, List.append_nil]
        · rw [List.length_drop, hlen]
      · rw [if_neg hpart] at hstep
        have hsource : source % 64 = 0 := not_not.mp hpart
        rw [if_pos hsource] at hread
        by_cases hinside : n ≤ ahead + source
        · rw [if_pos hinside] at hstep
          obtain rfl := Option.some.inj hstep
          rw [hread, deliveredOf_of_le (by omega)]
          refine ⟨⟨base, (rest ++ List.replicate (sizeToReadForDecrypt (n - ahead) - source) 0).drop n,
            true, []⟩, ?_, rfl, rfl, ?_, ?_⟩
          · rw [withdraw, List.take_append_of_le_length (by omega)]
          · exact List.drop_append_of_le_length (by omega)
          · rw [List.length_drop, hlen]
        · rw [if_neg hinside] at hstep
          cases hstep
  | after ahead zeros =>
      -- at the end of the file only the buffer and the zeros behind it are left
      obtain ⟨heof, hsrc, hbuff, hlen⟩ := h
      have hbufflen : f.buff.length = ahead + zeros := by
        rw [hbuff, List.length_append, List.length_replicate, hlen]
      simp only [readStep] at hstep
      by_cases hahead : n ≤ ahead
      · rw [if_pos hahead] at hstep
        obtain rfl := Option.some.inj hstep
        rw [read_ahead (by omega), deliveredOf_of_le (by omega), hbuff,
          List.take_append_of_le_length (by omega)]
        refine ⟨_, rfl, heof, hsrc, List.drop_append_of_le_length (by omega), ?_⟩
        rw [List.length_drop, hlen]
      rw [if_neg hahead] at hstep
      by_cases hnothing : ahead = 0 ∧ zeros = 0
      · rw [if_pos hnothing] at hstep
        obtain rfl := Option.some.inj hstep
        have hrest : rest = [] := List.length_eq_zero_iff.mp (hlen.trans hnothing.1)
        have hempty : f.buff = [] := List.length_eq_zero_iff.mp (by omega)
        rw [read, if_neg (by omega), if_pos ⟨heof, hempty⟩, deliveredOf, if_neg (by omega),
          if_pos hrest]
        refine ⟨_, rfl, heof, hsrc, ?_, ?_⟩
        · rw [hempty, hrest, List.drop_nil]
          rfl
        · rw [hrest, List.drop_nil]
          rfl
      rw [if_neg hnothing] at hstep
      by_cases hbehind : ahead = 0 ∧ zeros < n
      · rw [if_pos hbehind] at hstep
        obtain rfl := Option.some.inj hstep
        have hrest : rest = [] := List.length_eq_zero_iff.mp (hlen.trans hbehind.1)
        have hlack : n - zeros ≤ sizeToReadForDecrypt (n - zeros) := Nat.le_add_right _ _
        have hzeros : f.buff.length = zeros := by omega
        have hne : f.buff ≠ [] := by
          intro hnil
          rw [hnil, List.length_nil] at hzeros
          omega
        have hn : n ≠ 0 := by omega
        rw [read, if_neg (by omega), if_neg (fun hboth => hne hboth.2), deliveredOf, if_neg hn,
          if_pos hrest, hzeros]
        simp only [hsrc, List.take_nil, List.drop_nil, List.length_nil, List.append_nil]
        rw [if_neg (by omega), if_pos heof]
        refine ⟨_, rfl, heof, rfl, ?_, ?_⟩
        · rw [hrest, List.drop_nil, List.nil_append, List.replicate_add]
          show f.buff ++ _ = _
          rw [hbuff, hrest, List.nil_append, Nat.sub_zero]
        · rw [hrest, List.drop_nil]
          rfl
      · rw [if_neg hbehind] at hstep
        cases hstep

/-! #### Reads that go wrong -/

theorem mem_take_append {a x y : List UInt8} {b : UInt8} {j n : Nat} (hb : x[j]? = some b)
    (hn : a.length + j < n) : b ∈ (a ++ x ++ y).take n := by
  obtain ⟨hj, rfl⟩ := List.getElem?_eq_some_iff.mp hb
  refine List.mem_of_getElem? (i := a.length + j) ?_
  rw [List.getElem?_take_of_lt hn, List.getElem?_append_left (by rw [List.length_append]; omega),
    List.getElem?_append_right (Nat.le_add_right _ _), Nat.add_sub_cancel_left]
  exact hb

/-- Of a plaintext of ones, a read delivers ones only. -/
theorem not_delivered_of_mem {n : Nat} {out : List UInt8} (hones : ∀ b ∈ rest, b = 1) {b : UInt8}
    (hb : b ∈ out) (hne : b ≠ 1) : some out ≠ deliveredOf rest n := by
  intro heq
  rw [deliveredOf] at heq
  by_cases hn : n = 0
  · rw [if_pos hn, Option.some.injEq] at heq
    rw [heq] at hb
    cases hb
  · rw [if_neg hn] at heq
    by_cases hrest : rest = []
    · rw [if_pos hrest] at heq
      cases heq
    · rw [if_neg hrest, Option.some.injEq] at heq
      rw [heq] at hb
      exact hne (hones b (List.mem_of_mem_take hb))

/-- A read does not deliver more than is left. -/
theorem not_delivered_of_length {n : Nat} {out : List UInt8} (hlen : rest.length < out.length) :
    some out ≠ deliveredOf rest n := by
  intro heq
  rw [deliveredOf] at heq
  by_cases hn : n = 0
  · rw [if_pos hn, Option.some.injEq] at heq
    rw [heq] at hlen
    cases hlen
  · rw [if_neg hn] at heq
    by_cases hrest : rest = []
    · rw [if_pos hrest] at heq
      cases heq
    · rw [if_neg hrest, Option.some.injEq] at heq
      rw [heq, List.length_take] at hlen
      omega

/-- Blocks that are not whole, or too many for the size, are not delivered. -/
theorem read_wrong_blocks {ahead source n : Nat}
    (h : Matches onesStream f rest (.before ahead source)) (hones : ∀ b ∈ rest, b = 1)
    (hn : ahead < n) (hsize : sizeToReadForDecrypt (n - ahead) ≤ source)
    (hwrong : ¬ (sizeToReadForDecrypt (n - ahead) % ecryptBlocklength = 0 ∧
      sizeToReadForDecrypt (n - ahead) < 2 ^ 32)) (f' : ChachaInFilter) :
    f.read onesStream n ≠ .ok (deliveredOf rest n, f') := by
  intro hread
  have hahead := h.length_buff
  have hsrclen := h.length_src
  obtain ⟨heof, hbase, hbuff, hlen, hsrc⟩ := h
  have hlack : sizeToReadForDecrypt (n - ahead) = (n - ahead) + (n - ahead) % 64 := rfl
  have hwrong' : ¬ (sizeToReadForDecrypt (n - ahead) % 64 = 0 ∧
    sizeToReadForDecrypt (n - ahead) < 2 ^ 32) := hwrong
  rw [read, if_neg (by omega), if_neg (by rw [heof]; simp), hahead] at hread
  generalize sizeToReadForDecrypt (n - ahead) = size at *
  have hgotlen : (f.src.take size).length = size := by
    rw [List.length_take, hsrclen, Nat.min_eq_left hsize]
  have hgot : ∀ b ∈ f.src.take size, b = 254 := by
    intro b hb
    rw [hsrc] at hb
    exact crypt_onesStream (fun c hc => hones c (List.mem_of_mem_drop hc)) b
      (List.mem_of_mem_take hb)
  have hwhole : wholeBlocks (f.src.take size) = 64 * (size / 64) := by
    rw [wholeBlocks, hgotlen]
    rfl
  have hprocess := @ChachaProcesser.process_whole onesStream f.base (f.src.take size)
    (by rw [hbase]; decide)
  rw [hbase, List.nil_append, hwhole] at hprocess
  rcases hres : f.base.process onesStream (f.src.take size) with ⟨count, out, base⟩
  rw [hres] at hprocess
  simp only [if_pos hgotlen, hres] at hread
  by_cases hzero : 64 * (size / 64) = 0
  · -- less than a block: the bytes read stay encrypted
    rw [if_pos hzero, Prod.mk.injEq] at hprocess
    obtain ⟨rfl, -⟩ := hprocess
    simp only [withdraw, Except.ok.injEq, Prod.mk.injEq] at hread
    have hfirst : ∃ b, (f.src.take size)[0]? = some b :=
      ⟨_, List.getElem?_eq_getElem (by omega)⟩
    obtain ⟨b, hb⟩ := hfirst
    have hmem := mem_take_append (a := f.buff) (y := []) hb (show _ < n by omega)
    rw [List.append_nil] at hmem
    refine not_delivered_of_mem hones hmem ?_ hread.1
    rw [hgot b (List.mem_of_getElem? hb)]
    decide
  · rw [if_neg hzero, Prod.mk.injEq] at hprocess
    obtain ⟨rfl, -⟩ := hprocess
    have htake : ((f.src.take size).take (64 * (size / 64))).length = 64 * (size / 64) := by
      rw [List.length_take]
      omega
    have hdata := length_encryptBytes onesStream f.base.ctx
      ((f.src.take size).take (64 * (size / 64)))
    rw [htake] at hdata
    simp only [hdata] at hread
    by_cases hmod : 64 * (size / 64) = size
    · -- whole blocks, too many of them
      rw [if_pos hmod] at hread
      simp only [withdraw, Except.ok.injEq, Prod.mk.injEq] at hread
      have hzeros := (@encryptBytes_zero onesStream f.base.ctx
        ((f.src.take size).take (64 * (size / 64))) (by omega)).2
      rw [htake] at hzeros
      have hmem := mem_take_append (a := f.buff) (y := []) hzeros (show _ < n by omega)
      rw [List.append_nil] at hmem
      exact not_delivered_of_mem hones hmem (by decide) hread.1
    · rw [if_neg hmod] at hread
      cases hread

/-- What is processed at the end of the source stands in the buffer, behind what was kept. -/
theorem readLast_processed {p : ChachaProcesser} {kept garbage got : List UInt8} {n : Nat}
    (hbase : p.buff = []) (hblocks : wholeBlocks got ≠ 0) :
    ∃ base behind, readLast ks ⟨p, kept ++ garbage, false, []⟩ n got kept.length [] =
      .ok (withdraw ⟨base, kept ++ (encryptBytes ks p.ctx (got.take (wholeBlocks got))).1 ++ behind,
        true, []⟩ n) := by
  have hgot : got ≠ [] := by
    rintro rfl
    exact hblocks rfl
  have hprocess := @ChachaProcesser.process_whole ks p got (by rw [hbase]; decide)
  rw [hbase, List.nil_append, if_neg hblocks] at hprocess
  rcases hres : p.process ks got with ⟨count, out, base⟩
  rw [hres] at hprocess
  generalize (encryptBytes ks p.ctx (got.take (wholeBlocks got))).1 = data at *
  rw [Prod.mk.injEq] at hprocess
  obtain ⟨rfl, -⟩ := hprocess
  have hsum : kept.length + data.length = (kept ++ data).length := List.length_append.symm
  rw [readLast, if_neg hgot]
  simp only [hres, place_append, hsum]
  rcases hflush : base.flush ks with ⟨flushed, base'⟩
  cases flushed with
  | none => exact ⟨base', garbage.drop data.length, by rw [if_pos trivial]⟩
  | some tail =>
      refine ⟨base', tail, ?_⟩
      rw [if_pos trivial]
      simp only
      rw [← List.length_append, List.take_left]

/-- A rest of the source that is too long for the size is not delivered. -/
theorem read_wrong_last {ahead source n : Nat}
    (h : Matches onesStream f rest (.before ahead source)) (hones : ∀ b ∈ rest, b = 1)
    (hn : ahead < n) (hsize : source < sizeToReadForDecrypt (n - ahead)) (hlarge : 2 ^ 32 ≤ source)
    (f' : ChachaInFilter) : f.read onesStream n ≠ .ok (deliveredOf rest n, f') := by
  intro hread
  have hahead := h.length_buff
  have hsrclen := h.length_src
  obtain ⟨heof, hbase, hbuff, hlen, hsrc⟩ := h
  have hlack : sizeToReadForDecrypt (n - ahead) = (n - ahead) + (n - ahead) % 64 := rfl
  rw [read, if_neg (by omega), if_neg (by rw [heof]; simp), hahead] at hread
  generalize sizeToReadForDecrypt (n - ahead) = size at *
  have hgot : f.src.take size = f.src := List.take_of_length_le (by omega)
  have hleft : f.src.drop size = [] := List.drop_eq_nil_of_le (by omega)
  have hwhole : wholeBlocks f.src = 64 * (source / 64) := by
    rw [wholeBlocks, hsrclen]
    rfl
  simp only [hgot, hleft] at hread
  rw [if_neg (by omega), if_neg (by rw [heof]; decide), List.append_assoc] at hread
  obtain ⟨base, behind, hlast⟩ := @readLast_processed onesStream f.base f.buff
    (f.src ++ List.replicate (size - f.src.length) 0) f.src n hbase (by omega)
  rw [hahead] at hlast
  rw [heof] at hread
  replace hread := hlast.symm.trans hread
  simp only [withdraw, Except.ok.injEq, Prod.mk.injEq] at hread
  have htake : (f.src.take (wholeBlocks f.src)).length = 64 * (source / 64) := by
    rw [List.length_take]
    omega
  have hzeros := (@encryptBytes_zero onesStream f.base.ctx (f.src.take (wholeBlocks f.src))
    (by omega)).2
  rw [htake] at hzeros
  have hmem := mem_take_append (a := f.buff) (y := behind) hzeros (show _ < n by omega)
  exact not_delivered_of_mem hones hmem (by decide) hread.1

/-- A read that goes wrong does not deliver the next bytes. -/
theorem read_wrong {s : ReadState} {n : Nat} (h : Matches onesStream f rest s)
    (hones : ∀ b ∈ rest, b = 1) (hstep : readStep s n = none) (f' : ChachaInFilter) :
    f.read onesStream n ≠ .ok (deliveredOf rest n, f') := by
  cases s with
  | before ahead source =>
      have hlen := h.2.2.2.1
      simp only [readStep] at hstep
      by_cases hahead : n ≤ ahead
      · rw [if_pos hahead] at hstep
        cases hstep
      rw [if_neg hahead] at hstep
      by_cases hblocks : sizeToReadForDecrypt (n - ahead) ≤ source
      · rw [if_pos hblocks] at hstep
        refine read_wrong_blocks h hones (by omega) hblocks (fun hright => ?_) f'
        rw [if_pos hright] at hstep
        cases hstep
      rw [if_neg hblocks] at hstep
      by_cases hlarge : 2 ^ 32 ≤ source
      · exact read_wrong_last h hones (by omega) (by omega) hlarge f'
      rw [if_neg hlarge] at hstep
      by_cases hpart : source % ecryptBlocklength ≠ 0
      · rw [if_pos hpart] at hstep
        cases hstep
      rw [if_neg hpart] at hstep
      by_cases hinside : n ≤ ahead + source
      · rw [if_pos hinside] at hstep
        cases hstep
      -- the zeros behind the plaintext are delivered too
      intro hread
      obtain ⟨base, hlast⟩ :=
        @read_last onesStream f rest ahead source n h (by omega) (by omega) (by omega)
      have hlack : n - ahead ≤ sizeToReadForDecrypt (n - ahead) := Nat.le_add_right _ _
      have hsource : source % 64 = 0 := not_not.mp hpart
      rw [hlast, if_pos hsource] at hread
      simp only [withdraw, Except.ok.injEq, Prod.mk.injEq] at hread
      refine not_delivered_of_length ?_ hread.1
      rw [List.length_take, List.length_append, List.length_replicate]
      omega
  | after ahead zeros =>
      obtain ⟨heof, hsrc, hbuff, hlen⟩ := h
      have hbufflen : f.buff.length = ahead + zeros := by
        rw [hbuff, List.length_append, List.length_replicate, hlen]
      simp only [readStep] at hstep
      by_cases hahead : n ≤ ahead
      · rw [if_pos hahead] at hstep
        cases hstep
      rw [if_neg hahead] at hstep
      by_cases hnothing : ahead = 0 ∧ zeros = 0
      · rw [if_pos hnothing] at hstep
        cases hstep
      rw [if_neg hnothing] at hstep
      by_cases hbehind : ahead = 0 ∧ zeros < n
      · rw [if_pos hbehind] at hstep
        cases hstep
      intro hread
      by_cases hzeros : n ≤ ahead + zeros
      · -- zeros that are no bytes of the plaintext
        rw [read_ahead (by omega)] at hread
        simp only [Except.ok.injEq, Prod.mk.injEq] at hread
        refine not_delivered_of_length ?_ hread.1
        rw [List.length_take]
        omega
      · -- the end of the file before the rest
        have hne : f.buff ≠ [] := by
          intro hnil
          rw [hnil, List.length_nil] at hbufflen
          omega
        have hsize : n - f.buff.length ≤ sizeToReadForDecrypt (n - f.buff.length) :=
          Nat.le_add_right _ _
        rw [read, if_neg (by omega), if_neg (fun hboth => hne hboth.2)] at hread
        simp only [hsrc, List.take_nil, List.drop_nil, List.length_nil] at hread
        have hrest : rest ≠ [] := List.ne_nil_of_length_pos (by omega)
        have hn : n ≠ 0 := by omega
        rw [if_neg (by omega), if_pos heof, deliveredOf_pos hn hrest] at hread
        cases hread

theorem reads_step {s : ReadState} {ns : List Nat} (h : Matches ks f rest s)
    (hfit : ReadsFit s ns) : f.reads ks ns = .ok (deliveredAll rest ns) := by
  induction ns generalizing f rest s with
  | nil => rfl
  | cons n ns ih =>
      rw [ReadsFit, List.foldlM_cons] at hfit
      cases hstep : readStep s n with
      | none =>
          rw [hstep] at hfit
          cases hfit
      | some s' =>
          rw [hstep] at hfit
          obtain ⟨f', hread, hnext⟩ := read_step h hstep
          rw [reads, hread]
          simp only [ih hnext hfit]
          rfl

theorem reads_wrong {s : ReadState} {ns : List Nat} (h : Matches onesStream f rest s)
    (hones : ∀ b ∈ rest, b = 1) (hfit : ¬ ReadsFit s ns) :
    f.reads onesStream ns ≠ .ok (deliveredAll rest ns) := by
  induction ns generalizing f rest s with
  | nil => exact absurd rfl hfit
  | cons n ns ih =>
      intro hreads
      rw [reads] at hreads
      rw [ReadsFit, List.foldlM_cons] at hfit
      cases hread : f.read onesStream n with
      | error e =>
          rw [hread] at hreads
          cases hreads
      | ok r =>
          obtain ⟨out, f'⟩ := r
          simp only [hread] at hreads
          cases hrest : f'.reads onesStream ns with
          | error e =>
              rw [hrest] at hreads
              cases hreads
          | ok outs =>
              simp only [hrest, deliveredAll, Except.ok.injEq, List.cons.injEq] at hreads
              obtain ⟨rfl, rfl⟩ := hreads
              cases hstep : readStep s n with
              | none => exact read_wrong h hones hstep f' hread
              | some s' =>
                  rw [hstep] at hfit
                  obtain ⟨g, hread', hnext⟩ := read_step h hstep
                  rw [hread, Except.ok.injEq, Prod.mk.injEq] at hread'
                  obtain ⟨-, rfl⟩ := hread'
                  exact ih hnext (fun b hb => hones b (List.mem_of_mem_drop hb)) hfit hrest

end ChachaInFilter

/-! ### Chunking -/

/-- Writes of a plaintext in chunks, flushes and reads that give it back, with every count of a
write the size of its chunk. -/
structure Transparent (ks : Blocks) (chunks : List (List UInt8)) (flushCount : Nat)
    (ns : List Nat) : Prop where
  counts : (ChachaOutFilter.empty.writes ks chunks).1 = chunks.map List.length
  written : writtenBytes ks chunks flushCount = crypt ks 0 chunks.flatten
  delivered : (ChachaInFilter.ofSource (writtenBytes ks chunks flushCount)).reads ks ns =
    .ok (deliveredAll chunks.flatten ns)

/-- Sizes of writes, a number of flushes and sizes of reads with which nothing goes wrong. -/
structure ChunkingFits (sizes : List Nat) (flushCount : Nat) (ns : List Nat) : Prop where
  writes : WritesFit 0 sizes
  small : ∀ n ∈ sizes, n < 2 ^ 32
  flushed : sizes.sum % 64 = 0 ∨ flushCount = 1
  reads : ReadsFit (.before 0 sizes.sum) ns

theorem ChunkingFits.transparent {ks : Blocks} {chunks : List (List UInt8)} {flushCount : Nat}
    {ns : List Nat} (h : ChunkingFits (chunks.map List.length) flushCount ns) :
    Transparent ks chunks flushCount ns := by
  have hlen : chunks.flatten.length = (chunks.map List.length).sum := List.length_flatten
  have hholds := (@ChachaOutFilter.holds_empty ks).writes
    (fun buf hbuf => h.small buf.length (List.mem_map_of_mem hbuf)) h.writes
  rw [List.nil_append] at hholds
  have hwritten : writtenBytes ks chunks flushCount = crypt ks 0 chunks.flatten :=
    (hholds.snk_flushes_iff flushCount).mpr (hlen ▸ h.flushed)
  refine ⟨(@ChachaOutFilter.writes_counts_iff _ .empty chunks 0 rfl).mpr h.writes, hwritten, ?_⟩
  refine ChachaInFilter.reads_step (s := .before 0 (chunks.map List.length).sum) ?_ h.reads
  exact ⟨rfl, rfl, rfl, by rw [hlen, Nat.zero_add], hwritten⟩

/-- Sizes with which something goes wrong do so on a plaintext of ones. -/
theorem ChunkingFits.of_transparent {sizes : List Nat} {flushCount : Nat} {ns : List Nat}
    (h : Transparent onesStream (sizes.map fun n => List.replicate n 1) flushCount ns) :
    ChunkingFits sizes flushCount ns := by
  have hsizes : (sizes.map fun n => List.replicate n (1 : UInt8)).map List.length = sizes := by
    rw [List.map_map]
    exact (List.map_congr_left fun n _ => List.length_replicate).trans (List.map_id _)
  have hones : ∀ b ∈ (sizes.map fun n => List.replicate n (1 : UInt8)).flatten, b = 1 := by
    intro b hb
    obtain ⟨buf, hbuf, hmem⟩ := List.mem_flatten.mp hb
    obtain ⟨n, -, rfl⟩ := List.mem_map.mp hbuf
    exact (List.mem_replicate.mp hmem).2
  generalize (sizes.map fun n => List.replicate n (1 : UInt8)) = chunks at *
  have hlen : chunks.flatten.length = sizes.sum := by rw [List.length_flatten, hsizes]
  have hwrites : WritesFit 0 sizes := by
    have hfit := (@ChachaOutFilter.writes_counts_iff _ .empty chunks 0 rfl).mp h.counts
    rwa [hsizes] at hfit
  have hsmall : ∀ n ∈ sizes, n < 2 ^ 32 := by
    intro n hn
    by_contra hlarge
    rw [← hsizes] at hn
    obtain ⟨buf, hbuf, rfl⟩ := List.mem_map.mp hn
    have hzero := @ChachaOutFilter.mem_snk_flushes onesStream _ _
      (ChachaOutFilter.zero_mem_snk_writes h.counts ⟨buf, hbuf, Nat.not_lt.mp hlarge⟩) flushCount
    have hwritten := h.written
    rw [writtenBytes] at hwritten
    rw [hwritten] at hzero
    exact absurd (crypt_onesStream hones 0 hzero) (by decide)
  have hholds := (@ChachaOutFilter.holds_empty onesStream).writes
    (fun buf hbuf => hsmall buf.length (by rw [← hsizes]; exact List.mem_map_of_mem hbuf))
    (by rw [hsizes]; exact hwrites)
  rw [List.nil_append] at hholds
  have hflushed := (hholds.snk_flushes_iff flushCount).mp h.written
  rw [hlen] at hflushed
  refine ⟨hwrites, hsmall, hflushed, ?_⟩
  by_contra hreads
  refine @ChachaInFilter.reads_wrong _ chunks.flatten _ _ ?_ hones hreads h.delivered
  exact ⟨rfl, rfl, rfl, by rw [hlen, Nat.zero_add], h.written⟩

/-- The sizes of the writes, the number of flushes and the sizes of the reads do not show exactly
when they fit. -/
theorem transparent_iff_chunkingFits (sizes : List Nat) (flushCount : Nat) (ns : List Nat) :
    (∀ (ks : Blocks) (chunks : List (List UInt8)), chunks.map List.length = sizes →
      Transparent ks chunks flushCount ns) ↔ ChunkingFits sizes flushCount ns := by
  constructor
  · intro h
    refine ChunkingFits.of_transparent (h _ _ ?_)
    rw [List.map_map]
    exact (List.map_congr_left fun n _ => List.length_replicate).trans (List.map_id _)
  · rintro h ks chunks rfl
    exact h.transparent

/-- A write of 100 bytes reports 64, a read of one byte of an empty plaintext delivers a zero,
and one of 80 bytes of a plaintext of 100 throws. -/
theorem chunking_not_transparent :
    ¬ Transparent onesStream [List.replicate 100 1] 1 [] ∧
      ¬ Transparent onesStream [] 1 [1] ∧
        (ChachaInFilter.ofSource (writtenBytes onesStream
          [List.replicate 64 1, List.replicate 36 1] 1)).reads onesStream [80] =
            .error .wrongSizeDecrypted := by
  refine ⟨fun h => ?_, fun h => ?_, by decide⟩
  · exact absurd h.counts (by decide)
  · exact absurd h.delivered (by decide)

end Chinet
