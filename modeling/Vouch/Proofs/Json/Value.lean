import Vouch.Proofs.Json.Number
import Vouch.Proofs.Trust.Lifetime
/-!
# Saved records read back

Records are saved as arrays of arrays of numbers. Such a value is read back as it was if its doubles are
finite (`Plain`). The reader on its part refuses a number that no finite double is near to, and an integer
of more than 64 binary digits is no integer to it, so it does not come up with anything else: what it
reads has finite numbers only.

* `Plain.readValue`, `Plain.keeps`: plain values read back.
* `ReadsFinite.succ`, `finite_of_parseOctets?`: numbers that were read are finite.
* `EdgeTrust.keeps_toJson`, `CapabilityTrust.keeps_toJson`, `Registry.storable_octets`: finite records read
  back.
-/
namespace Vouch.Json

/-! ## Arrays of numbers -/

/-- Finite reals, counts, and arrays of such of a limited depth. -/
inductive Plain : (depth : Nat) → Json Float → Prop
  | real {depth : Nat} {x : Float} (h : x.isFinite = true) : Plain depth (.real x)
  | count {depth n : Nat} (h : n < UInt64.size) : Plain depth (.int n)
  | arr {depth : Nat} {items : List (Json Float)} (h : ∀ v ∈ items, Plain depth v) :
      Plain (depth + 1) (.arr items)

variable {rest : List Char}

/-- A number starts with none of the characters that announce something else. -/
theorem StartsNumber.ne {c : Char} (hc : StartsNumber c) :
    isBlank c = false ∧ c ≠ '"' ∧ c ≠ '[' ∧ c ≠ '\x7b' ∧ c ≠ 'n' ∧ c ≠ 't' ∧ c ≠ 'f' ∧ c ≠ ']' := by
  obtain rfl | ⟨d, hd, rfl⟩ := hc
  · decide
  · interval_cases d <;> decide

theorem skipBlanks_of_not_blank {c : Char} (hc : isBlank c = false) (cs : List Char) :
    skipBlanks (c :: cs) = c :: cs := by
  simp [skipBlanks, hc]

theorem readValue_of_startsNumber {c : Char} (hc : StartsNumber c) (depth fuel : Nat) (cs : List Char) :
    readValue depth (fuel + 1) (c :: cs) = readNumber (c :: cs) := by
  obtain ⟨hblank, hquote, hbracket, hbrace, hn, ht, hf, -⟩ := hc.ne
  rw [readValue, skipBlanks_of_not_blank hblank]
  simp only [if_neg hquote, if_neg hbracket, if_neg hbrace, if_neg hn, if_neg ht, if_neg hf]

theorem renderItems_eq (items : List (Json Float)) : renderItems items = items.map render := by
  induction items with
  | nil => rfl
  | cons v items ih => rw [renderItems, ih, List.map_cons]

/-- The items of an array as they are written. -/
def itemsChars (items : List (Json Float)) : List Char :=
  List.intercalate [','] (items.map fun v => (render v).toList)

theorem toList_render_arr (items : List (Json Float)) :
    (render (.arr items)).toList = '[' :: (itemsChars items ++ [']']) := by
  rw [render, renderItems_eq, String.toList_append, String.toList_append, String.toList_intercalate,
    List.map_map]
  rfl

theorem itemsChars_cons_cons (v w : Json Float) (items : List (Json Float)) :
    itemsChars (v :: w :: items) = (render v).toList ++ ',' :: itemsChars (w :: items) := by
  simp [itemsChars, List.intercalate]

/-- A plain value starts with a character that is neither blank nor a closing bracket. -/
theorem Plain.exists_head {depth : Nat} {v : Json Float} (h : Plain depth v) :
    ∃ c cs, (render v).toList = c :: cs ∧ isBlank c = false ∧ c ≠ ']' := by
  have hclosed : Closes [] := fun _ hc => by cases hc
  cases h with
  | real hx =>
    obtain ⟨c, cs, hc, htext, -⟩ := readNumber_realText hx hclosed
    exact ⟨c, cs, htext, hc.ne.1, hc.ne.2.2.2.2.2.2.2⟩
  | count hn =>
    obtain ⟨c, cs, hc, htext, -⟩ := readNumber_toString hn hclosed
    exact ⟨c, cs, htext, hc.ne.1, hc.ne.2.2.2.2.2.2.2⟩
  | arr h => exact ⟨'[', _, toList_render_arr _, rfl, by decide⟩

theorem exists_head_itemsChars {depth : Nat} {v : Json Float} (h : Plain depth v)
    (items : List (Json Float)) :
    ∃ c cs, itemsChars (v :: items) = c :: cs ∧ isBlank c = false ∧ c ≠ ']' := by
  obtain ⟨c, cs, hchars, hblank, hbracket⟩ := h.exists_head
  cases items with
  | nil => exact ⟨c, cs, by simp [itemsChars, List.intercalate, hchars], hblank, hbracket⟩
  | cons w items =>
    exact ⟨c, cs ++ ',' :: itemsChars (w :: items), by rw [itemsChars_cons_cons, hchars]; rfl,
      hblank, hbracket⟩

/-- Items that are read one by one are read together. -/
theorem readItems_itemsChars {depth : Nat} {v : Json Float} {items : List (Json Float)}
    (h : ∀ w ∈ v :: items, ∀ {rest : List Char} {fuel : Nat}, (render w).toList.length ≤ fuel →
      Closes rest → readValue depth fuel ((render w).toList ++ rest) = some (w, rest))
    (acc : List (Json Float)) {fuel : Nat} (hfuel : (itemsChars (v :: items)).length < fuel) :
    readItems depth acc fuel (itemsChars (v :: items) ++ ']' :: rest) =
      some (.arr (acc.reverse ++ v :: items), rest) := by
  induction items generalizing v acc fuel with
  | nil =>
    cases fuel with
    | zero => exact absurd hfuel (Nat.not_lt_zero _)
    | succ fuel =>
      have hchars : itemsChars [v] = (render v).toList := by simp [itemsChars, List.intercalate]
      rw [hchars] at hfuel ⊢
      have hv : readValue depth fuel ((render v).toList ++ ']' :: rest) = some (v, ']' :: rest) :=
        h v (by simp) (Nat.le_of_lt_succ hfuel) fun c hc => .inr (Option.some.inj hc).symm
      have hclose : skipBlanks (']' :: rest) = ']' :: rest := skipBlanks_of_not_blank rfl rest
      simp only [readItems, hv, hclose, List.reverse_cons]
  | cons w items ih =>
    cases fuel with
    | zero => exact absurd hfuel (Nat.not_lt_zero _)
    | succ fuel =>
      rw [itemsChars_cons_cons] at hfuel ⊢
      simp only [List.length_append, List.length_cons] at hfuel
      have hv (tail : List Char) :
          readValue depth fuel ((render v).toList ++ ',' :: tail) = some (v, ',' :: tail) :=
        h v (by simp) (by omega) fun c hc => .inl (Option.some.inj hc).symm
      have hcomma (cs : List Char) : skipBlanks (',' :: cs) = ',' :: cs := skipBlanks_of_not_blank rfl cs
      have hshorter : (itemsChars (w :: items)).length < fuel := by omega
      have hmore := ih (fun x hx => h x (List.mem_cons_of_mem _ hx)) (v :: acc) hshorter
      rw [List.append_assoc, List.cons_append]
      simp only [readItems, hv, hcomma, hmore, List.reverse_cons, List.append_assoc,
        List.singleton_append]

/-- Every value takes fuel. -/
theorem Plain.exists_fuel {depth fuel : Nat} {v : Json Float} (h : Plain depth v)
    (hfuel : (render v).toList.length ≤ fuel) : ∃ n, fuel = n + 1 := by
  obtain ⟨c, cs, hchars, -⟩ := h.exists_head
  rw [hchars, List.length_cons] at hfuel
  exact ⟨fuel - 1, by omega⟩

/-- **Plain values read back.** -/
theorem Plain.readValue {depth : Nat} {v : Json Float} (h : Plain depth v) {fuel : Nat}
    (hfuel : (render v).toList.length ≤ fuel) (hrest : Closes rest) :
    readValue depth fuel ((render v).toList ++ rest) = some (v, rest) := by
  induction h generalizing fuel rest with
  | @real depth x hx =>
    have hv : Plain depth (.real x) := .real hx
    obtain ⟨fuel, rfl⟩ := hv.exists_fuel hfuel
    obtain ⟨c, cs, hc, htext, hread⟩ := readNumber_realText hx hrest
    rw [render, htext, List.cons_append, readValue_of_startsNumber hc, hread]
  | @count depth n hn =>
    have hv : Plain depth (.int n) := .count hn
    obtain ⟨fuel, rfl⟩ := hv.exists_fuel hfuel
    obtain ⟨c, cs, hc, htext, hread⟩ := readNumber_toString hn hrest
    rw [render, htext, List.cons_append, readValue_of_startsNumber hc, hread]
  | @arr depth items h ih =>
    obtain ⟨fuel, rfl⟩ := (Plain.arr h).exists_fuel hfuel
    have hopen (cs : List Char) : skipBlanks ('[' :: cs) = '[' :: cs := skipBlanks_of_not_blank rfl cs
    rw [toList_render_arr] at hfuel ⊢
    simp only [List.length_cons, List.length_append, List.length_nil] at hfuel
    rw [List.cons_append, List.append_assoc, List.singleton_append, Json.readValue, hopen]
    simp only [if_neg (show ¬ '[' = '"' by decide), if_true]
    cases items with
    | nil =>
      have hclose : skipBlanks (itemsChars [] ++ ']' :: rest) = ']' :: rest :=
        skipBlanks_of_not_blank rfl rest
      simp only [hclose]
    | cons v items =>
      obtain ⟨c, cs, hchars, hblank, hbracket⟩ := exists_head_itemsChars (h v (by simp)) items
      have hlength : (itemsChars (v :: items)).length < fuel := by omega
      have hitems : readItems depth [] fuel (itemsChars (v :: items) ++ ']' :: rest) =
          some (.arr (v :: items), rest) := readItems_itemsChars ih [] hlength
      rw [hchars, List.cons_append] at hitems ⊢
      rw [skipBlanks_of_not_blank hblank]
      split
      · rename_i heq
        exact absurd (List.cons.inj heq).1 hbracket
      · exact hitems

/-- Text is UTF-8. -/
theorem fromUTF8?_toUTF8 (s : String) : String.fromUTF8? ⟨s.toUTF8.data.toList.toArray⟩ = some s := by
  have hbytes : (⟨s.toUTF8.data.toList.toArray⟩ : ByteArray) = s.toByteArray := by
    rw [Array.toArray_toList]
    rfl
  rw [hbytes]
  exact dif_pos s.isValidUTF8

/-- **Plain values are kept.** What is written of them is read back. -/
theorem Plain.keeps {v : Json Float} (h : Plain maxDepth v) : octets.Keeps v := by
  have hlength : (render v).toList.length ≤ 2 * (render v).toList.length + 2 := by omega
  have hclosed : Closes [] := fun _ hc => by cases hc
  have hread := h.readValue hlength hclosed
  rw [List.append_nil] at hread
  have hparse : parse? (render v) = some v := by
    unfold parse?
    simp only [hread]
    rfl
  show (String.fromUTF8? ⟨(render v).toUTF8.data.toList.toArray⟩).bind parse? = some v
  rw [fromUTF8?_toUTF8, Option.bind_some, hparse]

/-! ## What is read -/

theorem isFinite_intCast {i : Int} (h : i.natAbs < 2 ^ 64) : Scalar.isFinite (i : Float) = true :=
  Decimal.isFinite_nearest _ h

theorem finite_of_wholeNumber {negative : Bool} {n : Nat} {v : Json Float}
    (h : wholeNumber negative n = some v) : v.Finite := by
  have hreal {x : Float} (h : (if x.isFinite then some (Json.real x) else none) = some v) :
      v.Finite := by
    split at h
    · rename_i hx
      cases h
      exact .real hx
    · cases h
  unfold wholeNumber at h
  split at h
  · split at h
    · cases h
      exact .real (Decimal.isFinite_nearest true (by decide))
    · split at h
      · cases h
        exact .int (isFinite_intCast (by omega))
      · exact hreal h
  · split at h
    · rename_i hn
      cases h
      exact .int (isFinite_intCast hn)
    · exact hreal h

theorem finite_of_readUnsigned {negative : Bool} {cs rest : List Char} {v : Json Float}
    (h : readUnsigned negative cs = some (v, rest)) : v.Finite := by
  unfold readUnsigned at h
  simp only [Option.bind_eq_bind, Option.pure_def] at h
  split at h
  · cases h
  · simp only [Option.bind_eq_some_iff] at h
    obtain ⟨⟨fraction, cs₁⟩, -, ⟨exponent, cs₂⟩, -, h⟩ := h
    dsimp only at h
    split at h
    · obtain ⟨w, hw, h⟩ := Option.bind_eq_some_iff.1 h
      cases h
      exact finite_of_wholeNumber hw
    · split at h
      · rename_i hx
        cases h
        exact .real hx
      · cases h

theorem finite_of_readNumber {cs rest : List Char} {v : Json Float}
    (h : readNumber cs = some (v, rest)) : v.Finite := by
  unfold readNumber at h
  split at h <;> exact finite_of_readUnsigned h

theorem finite_of_readWord {word : String} {w v : Json Float} (hw : w.Finite) {cs rest : List Char}
    (h : readWord word w cs = some (v, rest)) : v.Finite := by
  unfold readWord at h
  dsimp only at h
  split at h
  · cases h
    exact hw
  · cases h

/-- What is read with some fuel has finite numbers only. -/
structure ReadsFinite (fuel : Nat) : Prop where
  value : ∀ {depth : Nat} {cs rest : List Char} {v : Json Float},
    readValue depth fuel cs = some (v, rest) → v.Finite
  items : ∀ {depth : Nat} {acc : List (Json Float)} {cs rest : List Char} {v : Json Float},
    (∀ w ∈ acc, w.Finite) → readItems depth acc fuel cs = some (v, rest) → v.Finite
  members : ∀ {depth : Nat} {acc : List (String × Json Float)} {cs rest : List Char} {v : Json Float},
    (∀ m ∈ acc, m.2.Finite) → readMembers depth acc fuel cs = some (v, rest) → v.Finite

theorem readsFinite_zero : ReadsFinite 0 := by
  refine ⟨fun h => ?_, fun _ h => ?_, fun _ h => ?_⟩
  · rw [readValue] at h
    cases h
  · rw [readItems] at h
    cases h
  · rw [readMembers] at h
    cases h

namespace ReadsFinite

variable {fuel depth : Nat} {cs : List Char} {v : Json Float} (ih : ReadsFinite fuel)
include ih

/-- A container is empty or goes on with its items or members; other values are no deeper. -/
theorem finite_of_readValue (h : readValue depth (fuel + 1) cs = some (v, rest)) : v.Finite := by
  rw [readValue] at h
  split at h
  · cases h
  · split at h
    · obtain ⟨⟨s, cs'⟩, -, hs⟩ := Option.map_eq_some_iff.1 h
      cases hs
      exact .str s
    · split at h
      · cases depth with
        | zero => cases h
        | succ depth =>
          dsimp only at h
          split at h
          · cases h
            exact .arr fun w hw => by cases hw
          · exact ih.items (fun w hw => by cases hw) h
      · split at h
        · cases depth with
          | zero => cases h
          | succ depth =>
            dsimp only at h
            split at h
            · cases h
              exact .obj fun m hm => by cases hm
            · exact ih.members (fun m hm => by cases hm) h
        · split at h
          · exact finite_of_readWord .null h
          · split at h
            · exact finite_of_readWord (.bool true) h
            · split at h
              · exact finite_of_readWord (.bool false) h
              · exact finite_of_readNumber h

theorem finite_of_readItems {acc : List (Json Float)} (hacc : ∀ w ∈ acc, w.Finite)
    (h : readItems depth acc (fuel + 1) cs = some (v, rest)) : v.Finite := by
  rw [readItems] at h
  split at h
  · cases h
  · rename_i w cs' hw
    have hmore : ∀ x ∈ w :: acc, x.Finite := List.forall_mem_cons.2 ⟨ih.value hw, hacc⟩
    split at h
    · exact ih.items hmore h
    · cases h
      exact .arr fun x hx => hmore x (List.mem_reverse.1 hx)
    · cases h

theorem finite_of_readMembers {acc : List (String × Json Float)} (hacc : ∀ m ∈ acc, m.2.Finite)
    (h : readMembers depth acc (fuel + 1) cs = some (v, rest)) : v.Finite := by
  rw [readMembers] at h
  split at h
  · split at h
    · cases h
    · split at h
      · split at h
        · cases h
        · rename_i w cs' hw
          have hmore (name : String) : ∀ m ∈ Entries.insert name w acc, m.2.Finite := fun m hm => by
            obtain rfl | hm := Entries.mem_insert hm
            · exact ih.value hw
            · exact hacc m hm
          dsimp only at h
          split at h
          · exact ih.members (hmore _) h
          · cases h
            exact .obj (hmore _)
          · cases h
      · cases h
  · cases h

/-- One step of fuel more. -/
theorem succ : ReadsFinite (fuel + 1) :=
  ⟨ih.finite_of_readValue, ih.finite_of_readItems, ih.finite_of_readMembers⟩

end ReadsFinite

theorem readsFinite (fuel : Nat) : ReadsFinite fuel := by
  induction fuel with
  | zero => exact readsFinite_zero
  | succ fuel ih => exact ih.succ

/-- **What octets stand for** has finite numbers only. -/
theorem finite_of_parseOctets? {b : Bytes} {v : Json Float} (h : parseOctets? b = some v) :
    v.Finite := by
  obtain ⟨s, -, hs⟩ := Option.bind_eq_some_iff.1 h
  unfold parse? at hs
  dsimp only at hs
  split at hs
  · rename_i w rest hread
    split at hs
    · cases hs
      exact (readsFinite _).value hread
    · cases hs
  · cases hs

end Vouch.Json

namespace Vouch

/-! ## Records -/

theorem Json.plain_ofScalar {x : Float} (h : Scalar.isFinite x = true) (depth : Nat) :
    Json.Plain depth (.ofScalar x) := by
  rw [Json.ofScalar, if_pos h]
  exact .real h

theorem Json.plain_word (depth : Nat) (n : UInt32) : Json.Plain depth (.int n.toNat) :=
  .count (Nat.lt_trans n.toNat_lt (by decide))

theorem Beta.IsFinite.plain_toJson {d : Beta Float} (h : d.IsFinite) (depth : Nat) :
    Json.Plain (depth + 1) d.toJson := by
  refine .arr fun v hv => ?_
  simp only [List.mem_cons, List.not_mem_nil, or_false] at hv
  obtain rfl | rfl := hv
  · exact Json.plain_ofScalar h.alpha depth
  · exact Json.plain_ofScalar h.beta depth

theorem Gaussian.IsFinite.plain_toJson {d : Gaussian Float} (h : d.IsFinite) (depth : Nat) :
    Json.Plain (depth + 1) d.toJson := by
  refine .arr fun v hv => ?_
  simp only [List.mem_cons, List.not_mem_nil, or_false] at hv
  obtain rfl | rfl | rfl := hv
  · exact Json.plain_ofScalar h.mean depth
  · exact Json.plain_ofScalar h.variance depth
  · exact Json.plain_word depth d.count

/-- **The record of an edge** reads back if it is finite. -/
theorem EdgeTrust.keeps_toJson {t : EdgeTrust Float} (h : t.IsFinite) :
    Json.octets.Keeps (EdgeTrust.format.toJson t) := by
  refine Json.Plain.keeps (.arr fun v hv => ?_)
  simp only [EdgeTrust.format, List.mem_cons, List.not_mem_nil, or_false] at hv
  obtain rfl | rfl := hv
  · exact h.submission.plain_toJson 125
  · exact h.result.plain_toJson 125

/-- **The record of a capability** reads back if it is finite. -/
theorem CapabilityTrust.keeps_toJson {k : ModelKind} {t : CapabilityTrust Float k} (h : t.IsFinite) :
    Json.octets.Keeps (CapabilityTrust.format.toJson t) := by
  refine Json.Plain.keeps (.arr fun v hv => ?_)
  cases t with
  | baseline quality =>
    obtain rfl := List.mem_singleton.1 hv
    exact Beta.IsFinite.plain_toJson h 125
  | throughput quality inbound outbound =>
    obtain ⟨hq, hi, ho⟩ := h
    simp only [CapabilityTrust.format, List.mem_cons, List.not_mem_nil, or_false] at hv
    obtain rfl | rfl | rfl := hv
    · exact hq.plain_toJson 125
    · exact hi.plain_toJson 125
    · exact ho.plain_toJson 125

/-- The octets of a running node keep every registry whose numbers are all finite. -/
theorem Registry.storable_octets {k : ModelKind} {r : TrustRegistry Float k}
    (h : ∀ e ∈ r.edges, e.IsFinite) : r.Storable Json.octets where
  record e he := ⟨(h e he).record, EdgeTrust.keeps_toJson (h e he).record⟩
  capability e he c hc :=
    ⟨(h e he).capability c hc, CapabilityTrust.keeps_toJson ((h e he).capability c hc)⟩

end Vouch
