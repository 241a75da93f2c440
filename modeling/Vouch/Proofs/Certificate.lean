import Vouch.KeyRequest
/-!
# Records are exact

A record is read and written at the same offsets, and its octets leave nothing to choose: the encoder,
which puts the fields one after the other, and the decoder, which cuts them out, both come down to
`LaidOut`, the places of the fields. What is signed is all of a record but the signature, so that no octet
of a record can change without a change to what is signed or to the signature.

* `LaidOut`: the places of the fields in a record.
* `toBytes_eq_iff_laidOut`, `ofBytes_eq_ok_iff_laidOut`: writer and reader agree on them.
* `signedPart_inj`: what is signed tells the subject, the key and the tags.
* `toBytes_eq_iff`: a record is what is signed and the signature.
* `Retouched`: what the change of one octet does.
* `RootAuthority.parts_of_response`: an answer of the root is taken apart as it was put together.
* `record_exact`: all of it.
-/
namespace Vouch

theorem Signature.toBytes_inj {a b : Signature} : a.toBytes = b.toBytes ↔ a = b := by
  constructor
  · intro h
    have hread := Signature.ofBytes_toBytes a
    rw [h, Signature.ofBytes_toBytes] at hread
    exact (Except.ok.inj hread).symm
  · rintro rfl
    rfl

theorem Tags.toNat_toBytes (t : Tags) : Bytes.toNat t.toBytes = t.bits.toNat := by
  rw [Tags.toBytes, Bytes.toNat_ofNat]
  exact Nat.mod_eq_of_lt t.bits.toNat_lt

namespace Certificate

/-! ## The fields and their places -/

/-- Octets that hold the fields of a certificate, each in its place and nothing besides. -/
structure LaidOut (c : Certificate) (b : Bytes) : Prop where
  length_eq : b.length = 140
  subject : b.take 8 = c.subject.toBytes
  key : (b.drop 8).take 64 = c.publicKey.toBytes
  /-- The first of four octets counts the most. -/
  tags : Bytes.toNat ((b.drop 72).take 4) = c.tags.bits.toNat
  signature : b.drop 76 = c.signature.toBytes

variable {b : Bytes} {c c' : Certificate}

theorem laidOut_toBytes (c : Certificate) : c.LaidOut c.toBytes := by
  obtain ⟨hsubject, hkey, htags, hsignature⟩ := fields_append (g := c.signature.toBytes)
    c.subject.length_toBytes c.publicKey.length_toBytes (Bytes.length_ofNat 4 c.tags.bits.toNat)
  refine ⟨length_toBytes c, hsubject, hkey, ?_, hsignature⟩
  exact (congrArg Bytes.toNat htags).trans c.tags.toNat_toBytes

/-- The four octets of the tags are those that their number is written with. -/
theorem LaidOut.tags_eq (h : c.LaidOut b) : (b.drop 72).take 4 = c.tags.toBytes := by
  have hfour : ((b.drop 72).take 4).length = 4 := by simp [h.length_eq]
  have hwritten := Bytes.ofNat_toNat ((b.drop 72).take 4)
  rw [hfour, h.tags] at hwritten
  exact hwritten.symm

/-- The fields in their places are all of the record. -/
theorem LaidOut.toBytes_eq (h : c.LaidOut b) : c.toBytes = b := by
  have h72 : (b.drop 8).drop 64 = b.drop 72 := List.drop_drop
  have h76 : (b.drop 72).drop 4 = b.drop 76 := List.drop_drop
  calc c.toBytes
      = b.take 8 ++ (b.drop 8).take 64 ++ (b.drop 72).take 4 ++ b.drop 76 := by
        rw [h.subject, h.key, h.tags_eq, h.signature]
        rfl
    _ = b.take 8 ++ ((b.drop 8).take 64 ++ ((b.drop 72).take 4 ++ (b.drop 72).drop 4)) := by
        simp only [List.append_assoc, h76]
    _ = b := by simp only [List.take_append_drop, ← h72]

theorem toBytes_eq_iff_laidOut : c.toBytes = b ↔ c.LaidOut b := by
  constructor
  · rintro rfl
    exact laidOut_toBytes c
  · exact LaidOut.toBytes_eq

theorem ofBytes_eq_ok_iff : ofBytes b = .ok c ↔ c.toBytes = b := by
  constructor
  · exact toBytes_of_ofBytes
  · rintro rfl
    exact ofBytes_toBytes c

theorem ofBytes_eq_ok_iff_laidOut : ofBytes b = .ok c ↔ c.LaidOut b :=
  ofBytes_eq_ok_iff.trans toBytes_eq_iff_laidOut

theorem exists_ofBytes (h : b.length = 140) : ∃ c, ofBytes b = .ok c := by
  cases hc : ofBytes b with
  | ok c => exact ⟨c, rfl⟩
  | error e => exact absurd h (ofBytes_eq_error_iff.1 hc).1

theorem exists_ofBytes_iff : (∃ c, ofBytes b = .ok c) ↔ b.length = 140 := by
  constructor
  · rintro ⟨c, hc⟩
    exact (ofBytes_eq_ok_iff_laidOut.1 hc).length_eq
  · exact exists_ofBytes

/-! ## What is signed -/

theorem signature_eq_drop (c : Certificate) : c.signature.toBytes = c.toBytes.drop 76 :=
  (laidOut_toBytes c).signature.symm

/-- A record is what is signed and the signature. -/
theorem toBytes_eq_iff :
    c.toBytes = c'.toBytes ↔ c.signedPart = c'.signedPart ∧ c.signature = c'.signature := by
  constructor
  · intro h
    refine ⟨by rw [signedPart_eq_take, h, ← signedPart_eq_take], Signature.toBytes_inj.1 ?_⟩
    rw [signature_eq_drop, h, ← signature_eq_drop]
  · rintro ⟨hsigned, hsig⟩
    rw [toBytes, toBytes, hsigned, hsig]

/-- What is signed tells everything but the signature. -/
theorem signedPart_inj :
    c.signedPart = c'.signedPart ↔
      c.subject = c'.subject ∧ c.publicKey = c'.publicKey ∧ c.tags = c'.tags := by
  constructor
  · intro h
    -- under one signature the two certificates have the same record
    have hsame : { c with signature := c'.signature } = c' := by
      have hbytes : { c with signature := c'.signature }.toBytes = c'.toBytes :=
        toBytes_eq_iff.2 ⟨h, rfl⟩
      exact Except.ok.inj ((ofBytes_eq_ok_iff.2 hbytes).symm.trans (ofBytes_toBytes c'))
    rw [← hsame]
    exact ⟨rfl, rfl, rfl⟩
  · rintro ⟨hsubject, hkey, htags⟩
    rw [signedPart, signedPart, hsubject, hkey, htags]

/-! ## The change of an octet -/

/-- What a certificate becomes when one octet of its record is another: in front of the signature what is
signed changes, from there on the signature, and never both. -/
def Retouched (c : Certificate) (i : Nat) (c' : Certificate) : Prop :=
  if i < 76 then c'.signedPart ≠ c.signedPart ∧ c'.signature = c.signature
  else c'.signedPart = c.signedPart ∧ c'.signature ≠ c.signature

theorem retouched_of_set {i : Nat} {x : UInt8} (hi : i < 140) (hx : c.toBytes[i]? ≠ some x)
    (h : c'.toBytes = c.toBytes.set i x) : c.Retouched i c' := by
  have hwritten : c'.toBytes[i]? = some x := by
    rw [h, List.getElem?_set_self (by rw [length_toBytes]; exact hi)]
  unfold Retouched
  split
  · rename_i hfront
    constructor
    · intro hsame
      have hoctet := congrArg (fun l : Bytes => l[i]?) hsame
      simp only [signedPart_eq_take, List.getElem?_take_of_lt hfront, hwritten] at hoctet
      exact hx hoctet.symm
    · refine Signature.toBytes_inj.1 ?_
      rw [signature_eq_drop, h, List.drop_set, if_pos hfront, ← signature_eq_drop]
  · rename_i hback
    constructor
    · rw [signedPart_eq_take, h, List.take_set, List.set_eq_of_length_le, ← signedPart_eq_take]
      rw [List.length_take]
      omega
    · intro hsame
      have hoctet := congrArg (fun s : Signature => s.toBytes[i - 76]?) hsame
      simp only [signature_eq_drop, List.getElem?_drop, Nat.add_sub_cancel' (Nat.not_lt.1 hback),
        hwritten] at hoctet
      exact hx hoctet.symm

end Certificate

/-! ## The answer of the root -/

namespace RootAuthority

variable (a : RootAuthority) (c : Certificate)

theorem length_response : (a.response c).length = 204 := by
  simp [response, Certificate.length]

theorem take_response : (a.response c).take 140 = c.toBytes :=
  List.take_left' c.length_toBytes

theorem drop_response : (a.response c).drop 140 = (a.key.sign c.toBytes).toBytes :=
  List.drop_left' c.length_toBytes

/-- Whoever asked takes the answer apart as the root put it together. -/
theorem parts_of_response :
    (Response.mk .content (a.response c)).parts = .ok (c.toBytes, a.key.sign c.toBytes) := by
  simp [Response.parts, Response.length, Certificate.length, length_response, take_response,
    drop_response, Signature.ofBytes_toBytes]

end RootAuthority

namespace Certificate

/-- **Records are exact.** The octets that are read as a certificate, and those that it is written as, are
those that hold its fields in their places; so reading and writing are inverse to each other, and what is
read are the octet strings of length 140, while any other is an error that tells its length. What is signed
is the first 76 octets, whatever the signature, and tells the subject, the key and the tags. The answer of
any root for a certificate is 204 octets, of which the first 140 are its record and the others the root's
signature over that, and they are taken apart so. Two records are the same exactly if both what is signed
and the signatures are; and octets that differ from a record in one place are the record of another
certificate, which differs in what is signed or in the signature, by the place. -/
theorem record_exact (a : RootAuthority) (b : Bytes) (c c' : Certificate) :
    (ofBytes b = .ok c ↔ c.LaidOut b) ∧ (c.toBytes = b ↔ c.LaidOut b) ∧
    ofBytes c.toBytes = .ok c ∧
    ((∃ c, ofBytes b = .ok c) ↔ b.length = 140) ∧
    (b.length = 140 → ∃ c, ofBytes b = .ok c ∧ c.toBytes = b) ∧
    (b.length ≠ 140 → ofBytes b = .error ⟨b.length⟩) ∧
    c.signedPart = c.toBytes.take 76 ∧
    (∀ sig, { c with signature := sig }.signedPart = c.signedPart) ∧
    (c.signedPart = c'.signedPart ↔
      c.subject = c'.subject ∧ c.publicKey = c'.publicKey ∧ c.tags = c'.tags) ∧
    (a.response c).length = 204 ∧ (a.response c).take 140 = c.toBytes ∧
    (a.response c).drop 140 = (a.key.sign c.toBytes).toBytes ∧
    (Response.mk .content (a.response c)).parts = .ok (c.toBytes, a.key.sign c.toBytes) ∧
    (c.toBytes = c'.toBytes ↔ c.signedPart = c'.signedPart ∧ c.signature = c'.signature) ∧
    (∀ i x, i < 140 → c.toBytes[i]? ≠ some x →
      ∃ c', ofBytes (c.toBytes.set i x) = .ok c' ∧ c.Retouched i c') := by
  refine ⟨ofBytes_eq_ok_iff_laidOut, toBytes_eq_iff_laidOut, ofBytes_toBytes c, exists_ofBytes_iff,
    ?_, ?_, signedPart_eq_take c, fun _ => rfl, signedPart_inj, a.length_response c,
    a.take_response c, a.drop_response c, a.parts_of_response c, toBytes_eq_iff, ?_⟩
  · intro h
    obtain ⟨c, hc⟩ := exists_ofBytes h
    exact ⟨c, hc, toBytes_of_ofBytes hc⟩
  · intro h
    exact ofBytes_eq_error_iff.2 ⟨h, rfl⟩
  · intro i x hi hx
    obtain ⟨c', hc'⟩ := exists_ofBytes (b := c.toBytes.set i x) (by simp [length])
    exact ⟨c', hc', retouched_of_set hi hx (toBytes_of_ofBytes hc')⟩

/-- The certificate of a device, with blank octets for its key and its signature. -/
def blank : Certificate :=
  ⟨⟨Vector.replicate 8 0⟩, ⟨Vector.replicate 64 0⟩, .edge, ⟨Vector.replicate 64 0⟩⟩

set_option maxRecDepth 4000 in
/-- On either side of the border: with another last octet of the tags the device passes for a root, and
something else is signed; with another first octet of the signature only that changes. -/
theorem record_exact_at_border :
    (∃ c, ofBytes (blank.toBytes.set 75 3) = .ok c ∧ c.tags = Tags.edge.union .root ∧
      c.signedPart ≠ blank.signedPart ∧ c.signature = blank.signature) ∧
    (∃ c, ofBytes (blank.toBytes.set 76 3) = .ok c ∧
      c.signedPart = blank.signedPart ∧ c.signature ≠ blank.signature) ∧
    (∃ c, ofBytes (List.replicate 140 0) = .ok c ∧ c.toBytes = List.replicate 140 0) ∧
    ofBytes (List.replicate 141 0) = .error ⟨141⟩ := by
  have hall (b : Bytes) := record_exact ⟨blank.subject, 1, by decide, by decide⟩ b blank blank
  obtain ⟨-, -, -, -, hread, -, -, -, -, -, -, -, -, -, hchange⟩ := hall (List.replicate 140 0)
  obtain ⟨-, -, -, -, -, hlong, -⟩ := hall (List.replicate 141 0)
  obtain ⟨c, hc, hsigned⟩ := hchange 75 3 (by decide) (by decide)
  obtain ⟨c', hc', hsig⟩ := hchange 76 3 (by decide) (by decide)
  have hpassed : c.tags = Tags.edge.union .root := by
    cases hc
    decide
  exact ⟨⟨c, hc, hpassed, hsigned⟩, ⟨c', hc', hsig⟩, hread (by simp), hlong (by simp)⟩

end Certificate
end Vouch
