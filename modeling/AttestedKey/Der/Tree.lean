import AttestedKey.Der.Encode

/-!
# Encodings described as trees

A `Tree` describes an encoding by its parts.  `Tree.encode` writes it, the parts of a node
before the node itself, so that of two negative wrapper numbers the inner or earlier one is
reported.
-/

namespace AttestedKey.Der

/-- A description of an encoding. -/
inductive Tree
  /-- A SEQUENCE. -/
  | sequence (parts : List Tree)
  /-- A SET, written in ascending order. -/
  | set (parts : List Tree)
  /-- An explicit wrapper. -/
  | explicit (number : Int) (inner : Tree)
  /-- An INTEGER. -/
  | integer (value : Int)
  /-- An ENUMERATED. -/
  | enumerated (value : Int)
  /-- An OCTET STRING. -/
  | octets (value : Octets)
  /-- An OCTET STRING around an encoding. -/
  | wrapped (inner : Tree)
  /-- A BOOLEAN. -/
  | boolean (value : Bool)
  /-- A NULL. -/
  | null
  /-- Octets that are written as they are. -/
  | raw (content : Octets)

namespace Tree

instance : Inhabited Tree := ⟨.null⟩

mutual

/-- Writes the encoding that a tree describes. -/
def encode : Tree → Except RangeError Octets
  | .sequence parts => do return encodeSequence (← encodeAll parts)
  | .set parts => do return encodeSet (← encodeAll parts)
  | .explicit number inner => do encodeExplicitInt number (← encode inner)
  | .integer value => return encodeInteger value
  | .enumerated value => return encodeEnumerated value
  | .octets value => return encodeOctets value
  | .wrapped inner => do return encodeOctets (← encode inner)
  | .boolean value => return encodeBoolean value
  | .null => return encodeNull
  | .raw content => return content

/-- Writes the encodings that some trees describe, in their order. -/
def encodeAll : List Tree → Except RangeError (List Octets)
  | [] => return []
  | part :: rest => do
    let first ← encode part
    return first :: (← encodeAll rest)

end

end Tree

end AttestedKey.Der
