import Vouch.Crypto.Keys
import Vouch.Eui64
/-!
# Certificates

The network root certifies a device by signing its identity, its public key and a set of tags. A
record is 140 octets: `subject (8) ‖ key (64) ‖ tags (4, big-endian) ‖ signature (64)`, of which the
first 76 are signed.

* `ofBytes_toBytes`, `toBytes_of_ofBytes`: records and octet strings of length 140 determine each
  other.
* `signedPart_eq_take`: what is signed is the front of the record.
-/
namespace Vouch

/-- A set of up to 32 tags that the root declares for a device. -/
structure Tags where
  bits : UInt32
  deriving DecidableEq, Repr

namespace Tags

def empty : Tags := ⟨0⟩
def edge : Tags := ⟨1⟩
def root : Tags := ⟨2⟩

def contains (a b : Tags) : Bool := a.bits &&& b.bits == b.bits

def union (a b : Tags) : Tags := ⟨a.bits ||| b.bits⟩

def toBytes (t : Tags) : Bytes := Bytes.ofNat 4 t.bits.toNat

def ofBytes (b : Bytes) : Tags := ⟨UInt32.ofNat (Bytes.toNat b)⟩

/-- Eight hexadecimal digits after `0x`. -/
def text (t : Tags) : String := "0x" ++ Hex.encode t.toBytes

theorem ofBytes_toBytes (t : Tags) : ofBytes t.toBytes = t := by
  have h : t.bits.toNat < Bytes.count 4 := t.bits.toNat_lt
  simp only [ofBytes, toBytes, Bytes.toNat_ofNat]
  rw [Nat.mod_eq_of_lt (by simpa using h)]
  simp

theorem toBytes_ofBytes {b : Bytes} (h : b.length = 4) : (ofBytes b).toBytes = b := by
  have hlt : Bytes.toNat b < Bytes.count 4 := by
    have := Bytes.toNat_lt b
    rw [h] at this
    exact this
  have he : (ofBytes b).bits.toNat = Bytes.toNat b := by
    simp only [ofBytes, UInt32.toNat_ofNat']
    exact Nat.mod_eq_of_lt hlt
  rw [toBytes, he, ← h, Bytes.ofNat_toNat]

end Tags

/-- A device identity certified by the root. -/
structure Certificate where
  subject : Eui64
  publicKey : PublicKey
  tags : Tags
  signature : Signature
  deriving DecidableEq, Repr

/-- A record of the wrong length. -/
structure CertificateError where
  found : Nat
  deriving DecidableEq, Repr

def CertificateError.message (e : CertificateError) : String :=
  s!"certificate record must be 140 bytes, got {e.found}"

namespace Certificate

/-- The length of a record. -/
def length : Nat := 140

/-- The octets that the root signs for a subject, its key and its tags. -/
def payload (subject : Eui64) (key : PublicKey) (tags : Tags) : Bytes :=
  subject.toBytes ++ key.toBytes ++ tags.toBytes

/-- The octets of a certificate that its signature covers. -/
def signedPart (c : Certificate) : Bytes := payload c.subject c.publicKey c.tags

def toBytes (c : Certificate) : Bytes := c.signedPart ++ c.signature.toBytes

def ofBytes (b : Bytes) : Except CertificateError Certificate :=
  if h : b.length = length then
    .ok {
      subject := ⟨⟨(b.take 8).toArray, by simp [h, length]⟩⟩
      publicKey := ⟨⟨((b.drop 8).take 64).toArray, by simp [h, length]⟩⟩
      tags := .ofBytes ((b.drop 72).take 4)
      signature := ⟨⟨(b.drop 76).toArray, by simp [h, length]⟩⟩ }
  else .error ⟨b.length⟩

/-- Checks a certificate under the root's key. -/
def verify (c : Certificate) (rootKey : PublicKey) : Except CryptoError Unit :=
  rootKey.verify c.signedPart c.signature

@[simp] theorem length_signedPart (c : Certificate) : c.signedPart.length = 76 := by
  simp [signedPart, payload, Tags.toBytes]

@[simp] theorem length_toBytes (c : Certificate) : c.toBytes.length = length := by
  simp [toBytes, length]

theorem signedPart_eq_take (c : Certificate) : c.signedPart = c.toBytes.take 76 := by
  simp [toBytes]

/-- The four fields of a record, found by their offsets. -/
theorem fields_append {s k t g : Bytes} (hs : s.length = 8) (hk : k.length = 64)
    (ht : t.length = 4) :
    (s ++ k ++ t ++ g).take 8 = s ∧ ((s ++ k ++ t ++ g).drop 8).take 64 = k ∧
      ((s ++ k ++ t ++ g).drop 72).take 4 = t ∧ (s ++ k ++ t ++ g).drop 76 = g := by
  have h8 : (s ++ (k ++ (t ++ g))).drop 8 = k ++ (t ++ g) := List.drop_left' hs
  have h72 : (s ++ (k ++ (t ++ g))).drop 72 = t ++ g := by
    rw [show 72 = 8 + 64 from rfl, ← List.drop_drop, h8, List.drop_left' hk]
  have h76 : (s ++ (k ++ (t ++ g))).drop 76 = g := by
    rw [show 76 = 72 + 4 from rfl, ← List.drop_drop, h72, List.drop_left' ht]
  simp only [List.append_assoc]
  refine ⟨List.take_left' hs, ?_, ?_, h76⟩
  · rw [h8, List.take_left' hk]
  · rw [h72, List.take_left' ht]

theorem ofBytes_toBytes (c : Certificate) : ofBytes c.toBytes = .ok c := by
  obtain ⟨⟨subject⟩, ⟨key⟩, tags, ⟨signature⟩⟩ := c
  obtain ⟨h1, h2, h3, h4⟩ := fields_append (s := subject.toList) (k := key.toList)
    (t := tags.toBytes) (g := signature.toList) (by simp) (by simp) (Bytes.length_ofNat 4 _)
  rw [ofBytes, dif_pos (length_toBytes _)]
  simp only [toBytes, signedPart, payload, Eui64.toBytes, PublicKey.toBytes, Signature.toBytes,
    h1, h2, h3, h4, Tags.ofBytes_toBytes]
  rfl

theorem toBytes_of_ofBytes {b : Bytes} {c : Certificate} (h : ofBytes b = .ok c) :
    c.toBytes = b := by
  unfold ofBytes at h
  split at h
  · rename_i hl
    cases h
    have h72 : (b.drop 8).drop 64 = b.drop 72 := by rw [List.drop_drop]
    have h76 : (b.drop 72).drop 4 = b.drop 76 := by rw [List.drop_drop]
    have hlen : ((b.drop 72).take 4).length = 4 := by simp [hl, length]
    have ht : (Tags.ofBytes ((b.drop 72).take 4)).toBytes = (b.drop 72).take 4 :=
      Tags.toBytes_ofBytes hlen
    simp only [toBytes, signedPart, payload, Eui64.toBytes, PublicKey.toBytes, Signature.toBytes, ht]
    show b.take 8 ++ (b.drop 8).take 64 ++ (b.drop 72).take 4 ++ b.drop 76 = b
    rw [← h76, List.append_assoc, List.take_append_drop, ← h72, List.append_assoc,
      List.take_append_drop, List.take_append_drop]
  · cases h

theorem ofBytes_eq_error_iff {b : Bytes} {e : CertificateError} :
    ofBytes b = .error e ↔ b.length ≠ length ∧ e = ⟨b.length⟩ := by
  unfold ofBytes
  split <;> simp_all [eq_comm]

end Certificate

/-- The network root, which issues certificates and answers requests for them. -/
structure RootAuthority where
  subject : Eui64
  key : PrivateKey

namespace RootAuthority

def publicKey (a : RootAuthority) : PublicKey := a.key.publicKey

/-- The certificate that binds a subject to a key. -/
def issue (a : RootAuthority) (subject : Eui64) (key : PublicKey) (tags : Tags) : Certificate :=
  ⟨subject, key, tags, a.key.sign (Certificate.payload subject key tags)⟩

/-- The answer to a request for a certificate: the record and the root's signature over it. -/
def response (a : RootAuthority) (c : Certificate) : Bytes :=
  c.toBytes ++ (a.key.sign c.toBytes).toBytes

def describe (a : RootAuthority) : String :=
  s!"RootAuthority \x7b subject: {a.subject.describe}, .. \x7d"

end RootAuthority
end Vouch
