/-!
# Response codes

A peer answers with a class and a detail, written `class.detail` with two digits of detail. Class 2
is success, 4 a fault of the asker, 5 a fault of the answerer.
-/
namespace Vouch

/-- The status of a response. -/
structure ResponseCode where
  cls : UInt8
  detail : UInt8
  deriving DecidableEq, Repr

namespace ResponseCode

/-- `2.05`, the answer that carries what was asked for. -/
def content : ResponseCode := ⟨2, 5⟩

def isSuccess (c : ResponseCode) : Bool := c.cls == 2

def isClientError (c : ResponseCode) : Bool := c.cls == 4

def isServerError (c : ResponseCode) : Bool := c.cls == 5

def text (c : ResponseCode) : String :=
  let pad := if c.detail < 10 then "0" else ""
  s!"{c.cls.toNat}.{pad}{c.detail.toNat}"

end ResponseCode
end Vouch
