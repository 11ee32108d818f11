import Chinet.Serialization.WireFormat
import Chinet.Storage.Registrations

/-!
# What an alias signature signs

`get_sign_buff_hash_for_alias_update` hashes the entry in its old form, without the signatures.
The serialization is injective, so two entries are signed alike only if their old forms agree.  The
old address has no flags: an entry and the same entry with other address flags have one signature.
-/

namespace Chinet

open Wire

/-! ## The signed buffer -/

/-- `account_public_address::to_old`. -/
def AccountPublicAddress.toOld (a : AccountPublicAddress) : AccountPublicAddressOld where
  spendPublicKey := a.spendPublicKey
  viewPublicKey := a.viewPublicKey

/-- `extra_alias_entry::to_old`. -/
def ExtraAliasEntry.toOld (ai : ExtraAliasEntry) : ExtraAliasEntryOld where
  mAddress := ai.mAddress.toOld
  mTextComment := ai.mTextComment
  mViewKey := ai.mViewKey
  mSign := ai.mSign
  mAlias := ai.mAlias

/-- The blob that `get_sign_buff_hash_for_alias_update` hashes. -/
def signBuffForAliasUpdate (ai : ExtraAliasEntry) : ByteString :=
  tSerializableObjectToBlob extraAliasEntryOld { ai.toOld with mSign := [] }

/-- `get_sign_buff_hash_for_alias_update`. -/
def getSignBuffHashForAliasUpdate (cnFastHash : ByteString → Hash) (ai : ExtraAliasEntry) : Hash :=
  cnFastHash (signBuffForAliasUpdate ai)

/-- The sizes of the containers of an entry are words. -/
structure ExtraAliasEntry.SizesFit (ai : ExtraAliasEntry) : Prop where
  mAlias : ai.mAlias.length < 2 ^ 64
  mTextComment : ai.mTextComment.length < 2 ^ 64
  mViewKey : ai.mViewKey.length < 2 ^ 64

/-- What the old form keeps: all fields but the address flags and the signatures. -/
structure ExtraAliasEntry.SameOld (ai ai' : ExtraAliasEntry) : Prop where
  mAlias : ai.mAlias = ai'.mAlias
  spendPublicKey : ai.mAddress.spendPublicKey = ai'.mAddress.spendPublicKey
  viewPublicKey : ai.mAddress.viewPublicKey = ai'.mAddress.viewPublicKey
  mTextComment : ai.mTextComment = ai'.mTextComment
  mViewKey : ai.mViewKey = ai'.mViewKey

theorem ExtraAliasEntry.sameOld_iff {ai ai' : ExtraAliasEntry} :
    ai.SameOld ai' ↔ { ai.toOld with mSign := [] } = { ai'.toOld with mSign := [] } := by
  constructor
  · rintro ⟨halias, hspend, hview, hcomment, hkey⟩
    simp [ExtraAliasEntry.toOld, AccountPublicAddress.toOld, halias, hspend, hview, hcomment, hkey]
  · intro h
    simp only [ExtraAliasEntry.toOld, AccountPublicAddress.toOld, ExtraAliasEntryOld.mk.injEq,
      ExtraAliasEntryBaseOld.mk.injEq, AccountPublicAddressOld.mk.injEq] at h
    obtain ⟨⟨⟨hspend, hview⟩, hcomment, hkey, -⟩, halias⟩ := h
    exact ⟨halias, hspend, hview, hcomment, hkey⟩

theorem delimits_accountPublicAddressOld :
    accountPublicAddressOld.Delimits fun _ => True := by
  refine ((delimits_serializeBlob 32).pair (delimits_serializeBlob 32)).map _
    (fun _ _ => ⟨trivial, trivial⟩) fun a a' _ _ heq => ?_
  cases a
  cases a'
  cases heq
  rfl

/-- An entry in its old form with sizes that fit. -/
def ExtraAliasEntryOldFits (e : ExtraAliasEntryOld) : Prop :=
  e.mAlias.length < 2 ^ 64 ∧ e.mTextComment.length < 2 ^ 64 ∧ e.mViewKey.length < 2 ^ 64 ∧
    e.mSign.length < 2 ^ 64

theorem delimits_extraAliasEntryOld : extraAliasEntryOld.Delimits ExtraAliasEntryOldFits := by
  have hkeys := delimits_serializeVector (delimits_serializeBlob 32)
  have hsigns := delimits_serializeVector (delimits_serializeBlob 64)
  have hbase := delimits_accountPublicAddressOld.pair
    (delimits_serializeString.pair (hkeys.pair hsigns))
  have hbase' : extraAliasEntryBaseOld.Delimits fun e =>
      e.mTextComment.length < 2 ^ 64 ∧ e.mViewKey.length < 2 ^ 64 ∧ e.mSign.length < 2 ^ 64 := by
    refine hbase.map _ (fun e he => ?_) fun e e' _ _ heq => ?_
    · exact ⟨trivial, he.1, ⟨he.2.1, fun _ _ => trivial⟩, he.2.2, fun _ _ => trivial⟩
    · cases e
      cases e'
      cases heq
      rfl
  refine (delimits_serializeString.pair hbase').map _ (fun e he => ⟨he.1, he.2⟩)
    fun e e' _ _ heq => ?_
  cases e
  cases e'
  cases heq
  rfl

theorem signBuff_eq_iff {ai ai' : ExtraAliasEntry} (h : ai.SizesFit) (h' : ai'.SizesFit) :
    signBuffForAliasUpdate ai = signBuffForAliasUpdate ai' ↔ ai.SameOld ai' := by
  have hempty : ([] : List Signature).length < 2 ^ 64 := Nat.two_pow_pos 64
  rw [ExtraAliasEntry.sameOld_iff]
  exact delimits_extraAliasEntryOld.write_inj ⟨h.mAlias, h.mTextComment, h.mViewKey, hempty⟩
    ⟨h'.mAlias, h'.mTextComment, h'.mViewKey, hempty⟩

/-! ## What the signature binds -/

/-- Entries that differ in a field other than the signatures are hashed from different bytes. -/
def SignedApart (ai ai' : ExtraAliasEntry) : Prop :=
  ai.mAlias ≠ ai'.mAlias ∨ ai.mAddress ≠ ai'.mAddress ∨ ai.mTextComment ≠ ai'.mTextComment ∨
    ai.mViewKey ≠ ai'.mViewKey →
  signBuffForAliasUpdate ai ≠ signBuffForAliasUpdate ai'

def DifferInFlagsOnly (ai ai' : ExtraAliasEntry) : Prop :=
  ai.SameOld ai' ∧ ai.mAddress.flags ≠ ai'.mAddress.flags

/-- The signature binds the whole entry but the flags of the address. -/
theorem signedApart_iff {ai ai' : ExtraAliasEntry} (h : ai.SizesFit) (h' : ai'.SizesFit) :
    SignedApart ai ai' ↔ ¬ DifferInFlagsOnly ai ai' := by
  rw [SignedApart, ne_eq (signBuffForAliasUpdate ai), signBuff_eq_iff h h']
  constructor
  · rintro happart ⟨hsame, hflags⟩
    have haddress : ai.mAddress ≠ ai'.mAddress := fun heq => hflags (by rw [heq])
    exact happart (Or.inr (Or.inl haddress)) hsame
  · rintro hflags hdiffer hsame
    -- with the old form all fields agree but the address, and that only if the flags do
    have haddress : ai.mAddress = ai'.mAddress := by
      by_contra hne
      refine hflags ⟨hsame, fun heq => hne ?_⟩
      have hspend := hsame.spendPublicKey
      have hview := hsame.viewPublicKey
      cases hai : ai.mAddress
      cases hai' : ai'.mAddress
      rw [hai, hai'] at hspend hview heq
      cases hspend
      cases hview
      cases heq
      rfl
    rcases hdiffer with hne | hne | hne | hne
    · exact hne hsame.mAlias
    · exact hne haddress
    · exact hne hsame.mTextComment
    · exact hne hsame.mViewKey

/-- An entry for an address with these flags. -/
def flagsEntry (flags : UInt8) : ExtraAliasEntry where
  mAlias := [97, 108, 105, 99, 101, 49]
  mAddress := { spendPublicKey := 5, viewPublicKey := 7, flags }
  mTextComment := []
  mViewKey := []
  mSign := []

theorem flagsEntry_sizesFit (flags : UInt8) : (flagsEntry flags).SizesFit := by
  refine ⟨?_, ?_, ?_⟩ <;> simp [flagsEntry]

theorem signedApart_of_flagsEntry :
    SignedApart (flagsEntry 0) (flagsEntry 1) ↔ ¬ DifferInFlagsOnly (flagsEntry 0) (flagsEntry 1) :=
  signedApart_iff (flagsEntry_sizesFit 0) (flagsEntry_sizesFit 1)

/-- A normal and an auditable address are signed alike. -/
theorem flagsEntry_signed_alike :
    ¬ ∀ ai ai' : ExtraAliasEntry, ai.SizesFit → ai'.SizesFit → SignedApart ai ai' := by
  intro h
  have happart := h _ _ (flagsEntry_sizesFit 0) (flagsEntry_sizesFit 1)
  exact happart (Or.inr (Or.inl (by decide))) rfl

end Chinet
