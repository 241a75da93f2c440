import Vouch.Eui64
/-!
# Network addresses

An IPv6 address is sixteen octets. A peer is seen under its link-local (`fe80::/10`) or its global
(`fd00::/16`) address, depending on the interface a packet came in on; `normalise` maps both to the
global one, and every look-up by address goes through it. The interface identifier, the last eight
octets, is the peer's EUI-64 with the universal bit flipped.

* `normalise_normalise`: normalising twice is normalising once.
* `eui64_normalise`: both forms of an address name the same device.
-/
namespace Vouch

/-- An IPv6 address. -/
structure Address where
  octets : Octets 16
  deriving DecidableEq, Repr

namespace Address

def toBytes (a : Address) : Bytes := a.octets.toList

def ofBytes? (b : Bytes) : Option Address := (Bytes.octets? 16 b).map Address.mk

/-- The octet at a position, counted from the left. -/
def octet (a : Address) (i : Nat) : UInt8 := a.toBytes.getD i 0

/-- The eight groups of sixteen bits, from the left. -/
def groups (a : Address) : List Nat :=
  (List.range 8).map fun i => (a.octet (2 * i)).toNat * 256 + (a.octet (2 * i + 1)).toNat

/-- The address with the given groups; missing ones are zero. -/
def ofGroups (g : List Nat) : Address :=
  ⟨Vector.ofFn fun i =>
    let group := g.getD (i.val / 2) 0
    UInt8.ofNat (if i.val % 2 = 0 then group / 256 else group % 256)⟩

/-- Whether the address lies in `fe80::/10`. -/
def IsLinkLocal (a : Address) : Prop := a.octet 0 = 0xfe ∧ a.octet 1 &&& 0xc0 = 0x80

instance (a : Address) : Decidable a.IsLinkLocal := inferInstanceAs (Decidable (_ ∧ _))

/-- The global form of a link-local address; any other address is already in its one form. -/
def normalise (a : Address) : Address :=
  if a.IsLinkLocal then
    ⟨Vector.ofFn fun i => if i.val = 0 then 0xfd else if i.val = 1 then 0 else a.octet i.val⟩
  else a

/-- The device behind an address: its interface identifier with the universal bit flipped. -/
def eui64 (a : Address) : Eui64 :=
  ⟨Vector.ofFn fun i => if i.val = 0 then a.octet 8 ^^^ 0x02 else a.octet (8 + i.val)⟩

theorem octet_ofFn (f : Fin 16 → UInt8) {i : Nat} (h : i < 16) :
    octet ⟨Vector.ofFn f⟩ i = f ⟨i, h⟩ := by
  simp [octet, toBytes, h]

theorem not_isLinkLocal_normalise (a : Address) : ¬ a.normalise.IsLinkLocal := by
  unfold normalise
  split
  · rintro ⟨h, -⟩
    rw [octet_ofFn _ (by decide)] at h
    simp at h
  · assumption

theorem normalise_of_not_isLinkLocal {a : Address} (h : ¬ a.IsLinkLocal) : a.normalise = a :=
  if_neg h

@[simp] theorem normalise_normalise (a : Address) : a.normalise.normalise = a.normalise :=
  normalise_of_not_isLinkLocal (not_isLinkLocal_normalise a)

@[simp] theorem eui64_normalise (a : Address) : a.normalise.eui64 = a.eui64 := by
  unfold normalise
  split
  · have h (i : Nat) (hi : i < 8) : octet ⟨Vector.ofFn fun i : Fin 16 =>
        if i.val = 0 then 0xfd else if i.val = 1 then 0 else a.octet i.val⟩ (8 + i) =
        a.octet (8 + i) := by
      rw [octet_ofFn _ (by omega), if_neg (by simp), if_neg (by simp; omega)]
    have h8 := h 0 (by decide)
    simp only [eui64, Eui64.mk.injEq]
    ext i hi
    simp only [Vector.getElem_ofFn]
    split
    · rw [h8]
    · rw [h i hi]
  · rfl

end Address
end Vouch
