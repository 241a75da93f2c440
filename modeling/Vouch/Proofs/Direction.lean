import Mathlib.Data.Set.Function
import Vouch.SecurityContext
/-!
# The two directions of a context

The messages of one end are told from those of the other by the identifier and the key they are sent
under. Both are made from the last six octets of the sender's identity, and an identity has eight. So
the directions of a context are apart exactly where the two identities differ in one of these six
octets (`Eui64.EndApart`). No hash is injective; what is asked of the key derivation is that it does
not collide on the materials that are in use (`NoCollision`).

* `contextId_eq_iff`: when two devices have one identifier.
* `directionalKey_inj`: a key tells its secret and its owner.
* `directions_apart_iff`: when the two directions differ, in their identifiers and in their keys.
* `not_directions_apart`: two devices whose identities differ in the first two octets only send to each
  other under one identifier and one key.
-/
namespace Vouch

/-- Two identities that differ in one of the octets that identify a direction. -/
def Eui64.EndApart (a b : Eui64) : Prop :=
  ∃ i : Fin 8, 8 - SecurityContext.idLength ≤ i.val ∧ a.octets[i] ≠ b.octets[i]

instance (a b : Eui64) : Decidable (a.EndApart b) := inferInstanceAs (Decidable (∃ _ : Fin 8, _))

namespace SecurityContext

variable {a b : Eui64} {secret secret' : SharedSecret} {used : Set Bytes}

/-- What the key of a direction is derived from. -/
def material (secret : SharedSecret) (owner : Bytes) : Bytes := secret.toBytes ++ owner

/-- No two of some materials give one key. -/
def NoCollision (used : Set Bytes) : Prop := Set.InjOn (Crypto.Blake3.deriveKey keyPurpose 16) used

theorem contextId_eq_iff : contextId a = contextId b ↔ ¬ a.EndApart b := by
  have hid (e : Eui64) : contextId e = e.octets.toList.drop 2 := rfl
  rw [hid, hid, Eui64.EndApart, idLength]
  push Not
  constructor
  · intro h i hi
    have hi' : 2 ≤ i.val := hi
    have hat : (a.octets.toList.drop 2)[i.val - 2]? = (b.octets.toList.drop 2)[i.val - 2]? := by rw [h]
    rw [List.getElem?_drop, List.getElem?_drop, Nat.add_sub_cancel' hi'] at hat
    simpa using hat
  · intro h
    refine List.ext_getElem (by simp) fun i hi _ => ?_
    rw [List.length_drop, Vector.length_toList] at hi
    simpa using h ⟨2 + i, by omega⟩ (Nat.le_add_right 2 i)

/-- **A key tells its secret and its owner**, as long as no two materials in use give one key. -/
theorem directionalKey_inj {x y : Bytes} (h : NoCollision used) (hx : material secret x ∈ used)
    (hy : material secret' y ∈ used) :
    directionalKey secret x = directionalKey secret' y ↔ secret = secret' ∧ x = y := by
  refine ⟨fun heq => ?_, fun ⟨hs, ho⟩ => hs ▸ ho ▸ rfl⟩
  have hmaterial : secret.toBytes ++ x = secret'.toBytes ++ y := h hx hy heq
  -- secrets have one length
  obtain ⟨hs, ho⟩ := List.append_inj hmaterial (by simp [SharedSecret.toBytes])
  cases secret
  cases secret'
  exact ⟨congrArg SharedSecret.mk (Vector.toList_inj.1 hs), ho⟩

/-- **When the two directions are apart.** For all identities and every secret, the identifiers of the two
directions differ exactly if the identities differ in one of the octets that identifiers are made of;
and so do their keys, as long as no two materials in use give one key. -/
theorem directions_apart_iff (secret : SharedSecret) (self peer : Eui64) :
    ((derive secret self peer).senderId ≠ (derive secret self peer).recipientId ↔
        self.EndApart peer) ∧
      ∀ used, NoCollision used → material secret (contextId self) ∈ used →
        material secret (contextId peer) ∈ used →
          ((derive secret self peer).senderKey ≠ (derive secret self peer).recipientKey ↔
            self.EndApart peer) := by
  simp only [derive]
  have hid : contextId self ≠ contextId peer ↔ self.EndApart peer :=
    (not_congr contextId_eq_iff).trans not_not
  refine ⟨hid, fun used h hself hpeer => ?_⟩
  rw [Ne, directionalKey_inj h hself hpeer, eq_self, true_and]
  exact hid

def someSecret : SharedSecret := ⟨Vector.replicate 32 0x42⟩

def someDevice : Eui64 := ⟨#v[0, 0x12, 0x4b, 0, 0, 0, 0x0a, 0x0a]⟩

/-- A device of the same make. -/
def nextDevice : Eui64 := ⟨#v[0, 0x12, 0x4b, 0, 0, 0, 0x0a, 0x0b]⟩

/-- A device of another make, with the number of the first. -/
def likeDevice : Eui64 := ⟨#v[0x70, 0xb3, 0x4b, 0, 0, 0, 0x0a, 0x0a]⟩

theorem directions_apart_of_neighbours :
    NoCollision {material someSecret (contextId someDevice),
        material someSecret (contextId nextDevice)} ∧
      (derive someSecret someDevice nextDevice).senderId ≠
        (derive someSecret someDevice nextDevice).recipientId ∧
      (derive someSecret someDevice nextDevice).senderKey ≠
        (derive someSecret someDevice nextDevice).recipientKey := by
  have hkeys : Crypto.Blake3.deriveKey keyPurpose 16 (material someSecret (contextId someDevice)) ≠
      Crypto.Blake3.deriveKey keyPurpose 16 (material someSecret (contextId nextDevice)) := by
    decide +kernel
  have hused : NoCollision {material someSecret (contextId someDevice),
      material someSecret (contextId nextDevice)} := Set.injOn_pair.2 fun heq => absurd heq hkeys
  have hapart : someDevice.EndApart nextDevice := by decide
  obtain ⟨hid, hkey⟩ := directions_apart_iff someSecret someDevice nextDevice
  exact ⟨hused, hid.2 hapart, (hkey _ hused (.inl rfl) (.inr rfl)).2 hapart⟩

/-- **Different identities are not enough.** Devices whose identities end in the same six octets send to
each other under one identifier and one key. -/
theorem not_directions_apart :
    someDevice ≠ likeDevice ∧
      (derive someSecret someDevice likeDevice).senderId =
        (derive someSecret someDevice likeDevice).recipientId ∧
      (derive someSecret someDevice likeDevice).senderKey =
        (derive someSecret someDevice likeDevice).recipientKey := by
  have hid : contextId someDevice = contextId likeDevice := by decide
  simp only [derive, hid]
  exact ⟨by decide, trivial, trivial⟩

end SecurityContext
end Vouch
