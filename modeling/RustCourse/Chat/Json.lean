import Mathlib.Algebra.Ring.Nat
import RustCourse.Chat.Messages

/-!
# The messages as JSON

What `serde_json::to_vec` prints for the two message types: no white space, a variant as its
name or as an object with its name as the only key, and a string in quotes, with escapes for
quotes, backslashes and control characters and nothing else.

A server takes the encoding as a parameter.  What it relies on is how long an encoding is,
which depends on the strings in the message only (`Sized`).

## Strategy

An encoding is a concatenation, so its length is a sum: `quotedLength` of every string and
`listLength` of every list, with what the punctuation of the variant adds.  The characters are
counted in bytes and with their escapes, so no equation needs to look into an encoding again.
-/

namespace RustCourse.Chat

namespace Json

/-- The bytes of a text. -/
def utf8 (text : String) : List UInt8 :=
  text.toList.flatMap String.utf8EncodeChar

/-- A digit of `\u00xx`. -/
def hexDigit (n : ℕ) : UInt8 :=
  UInt8.ofNat (if n < 10 then 48 + n else 87 + n)

/-- A character of a string. -/
def escape (c : Char) : List UInt8 :=
  if c = '"' then utf8 "\\\""
  else if c = '\\' then utf8 "\\\\"
  else if c = '\x08' then utf8 "\\b"
  else if c = '\x0c' then utf8 "\\f"
  else if c = '\n' then utf8 "\\n"
  else if c = '\r' then utf8 "\\r"
  else if c = '\t' then utf8 "\\t"
  else if c.toNat < 32 then utf8 "\\u00" ++ [hexDigit (c.toNat / 16), hexDigit (c.toNat % 16)]
  else String.utf8EncodeChar c

/-- A string. -/
def quoted (text : String) : List UInt8 :=
  utf8 "\"" ++ text.toList.flatMap escape ++ utf8 "\""

/-- A sequence, from what its elements are printed as. -/
def sequence (items : List (List UInt8)) : List UInt8 :=
  utf8 "[" ++ (utf8 ",").intercalate items ++ utf8 "]"

end Json

open Json

/-! ## The two message types -/

/-- `serde_json::to_vec` of what a client sends. -/
def ClientToServerMsg.toVec : ClientToServerMsg → List UInt8
  | .join name => utf8 "\x7b\"Join\":\x7b\"name\":" ++ quoted name ++ utf8 "\x7d\x7d"
  | .ping => quoted "Ping"
  | .listUsers => quoted "ListUsers"
  | .sendDM recipient message =>
      utf8 "\x7b\"SendDM\":\x7b\"to\":" ++ quoted recipient ++ utf8 ",\"message\":" ++
        quoted message ++ utf8 "\x7d\x7d"
  | .broadcast message =>
      utf8 "\x7b\"Broadcast\":\x7b\"message\":" ++ quoted message ++ utf8 "\x7d\x7d"

/-- `serde_json::to_vec` of what the server sends. -/
def ServerToClientMsg.toVec : ServerToClientMsg → List UInt8
  | .welcome => quoted "Welcome"
  | .pong => quoted "Pong"
  | .userList users =>
      utf8 "\x7b\"UserList\":\x7b\"users\":" ++ Json.sequence (users.map quoted) ++ utf8 "\x7d\x7d"
  | .message sender text =>
      utf8 "\x7b\"Message\":\x7b\"from\":" ++ quoted sender ++ utf8 ",\"message\":" ++
        quoted text ++ utf8 "\x7d\x7d"
  | .error text => utf8 "\x7b\"Error\":" ++ quoted text ++ utf8 "\x7d"

/-! ## Lengths -/

namespace Json

/-- The length of a string in quotes. -/
def quotedLength (text : String) : ℕ :=
  (quoted text).length

/-- The length of a list of strings in brackets. -/
def listLength (texts : List String) : ℕ :=
  (texts.map quotedLength).sum + (texts.length - 1) + 2

theorem quotedLength_eq (text : String) :
    quotedLength text = (text.toList.map fun c => (escape c).length).sum + 2 := by
  have hquote : (utf8 "\"").length = 1 := by decide
  simp only [quotedLength, quoted, List.length_append, hquote, List.length_flatMap]
  omega

theorem quotedLength_append (text text' : String) :
    quotedLength (text ++ text') + 2 = quotedLength text + quotedLength text' := by
  simp only [quotedLength_eq, String.toList_append, List.map_append, List.sum_append]
  omega

theorem quotedLength_replicate (n : ℕ) (c : Char) :
    quotedLength (String.ofList (List.replicate n c)) = n * (escape c).length + 2 := by
  rw [quotedLength_eq, String.toList_ofList, List.map_replicate, List.sum_replicate_nat]

private theorem length_intercalate (separator : UInt8) (items : List (List UInt8)) :
    ([separator].intercalate items).length = (items.map List.length).sum + (items.length - 1) := by
  induction items with
  | nil => rfl
  | cons item rest ih =>
      cases rest with
      | nil => simp
      | cons item' rest =>
          rw [List.intercalate_cons_cons]
          simp only [List.length_append, List.length_cons, ih, List.map_cons, List.sum_cons]
          simp
          omega

private theorem length_sequence (texts : List String) :
    (sequence (texts.map quoted)).length = listLength texts := by
  have hopen : (utf8 "[").length = 1 := by decide
  have hclose : (utf8 "]").length = 1 := by decide
  have hcomma : utf8 "," = [44] := by decide
  have hlengths : (texts.map quoted).map List.length = texts.map quotedLength := by
    simp [quotedLength]
  simp only [sequence, hcomma, List.length_append, hopen, hclose, length_intercalate, hlengths,
    List.length_map, listLength]
  omega

theorem length_join (name : String) :
    (ClientToServerMsg.join name).toVec.length = 18 + quotedLength name := by
  have hbefore : (utf8 "\x7b\"Join\":\x7b\"name\":").length = 16 := by decide
  have hafter : (utf8 "\x7d\x7d").length = 2 := by decide
  simp only [ClientToServerMsg.toVec, List.length_append, hbefore, hafter, quotedLength]
  omega

theorem length_broadcast (text : String) :
    (ClientToServerMsg.broadcast text).toVec.length = 26 + quotedLength text := by
  have hbefore : (utf8 "\x7b\"Broadcast\":\x7b\"message\":").length = 24 := by decide
  have hafter : (utf8 "\x7d\x7d").length = 2 := by decide
  simp only [ClientToServerMsg.toVec, List.length_append, hbefore, hafter, quotedLength]
  omega

end Json

/-! ## What a server relies on -/

/-- The encoding of a message is as long as what `serde_json` prints. -/
structure Json.Sized (encode : ServerToClientMsg → List UInt8) : Prop where
  welcome : (encode .welcome).length = 9
  pong : (encode .pong).length = 6
  userList : ∀ users, (encode (.userList users)).length = 23 + listLength users
  message : ∀ sender text,
    (encode (.message sender text)).length = 32 + quotedLength sender + quotedLength text
  error : ∀ text, (encode (.error text)).length = 10 + quotedLength text

theorem Json.sized_toVec : Json.Sized ServerToClientMsg.toVec where
  welcome := by decide
  pong := by decide
  userList users := by
    have hbefore : (utf8 "\x7b\"UserList\":\x7b\"users\":").length = 21 := by decide
    have hafter : (utf8 "\x7d\x7d").length = 2 := by decide
    simp only [ServerToClientMsg.toVec, List.length_append, hbefore, hafter, length_sequence]
    omega
  message sender text := by
    have hbefore : (utf8 "\x7b\"Message\":\x7b\"from\":").length = 19 := by decide
    have hbetween : (utf8 ",\"message\":").length = 11 := by decide
    have hafter : (utf8 "\x7d\x7d").length = 2 := by decide
    simp only [ServerToClientMsg.toVec, List.length_append, hbefore, hbetween, hafter, quotedLength]
    omega
  error text := by
    have hbefore : (utf8 "\x7b\"Error\":").length = 9 := by decide
    have hafter : (utf8 "\x7d").length = 1 := by decide
    simp only [ServerToClientMsg.toVec, List.length_append, hbefore, hafter, quotedLength]
    omega

/-! ## Reading back -/

/-- `serde_json::from_slice` on what `to_vec` prints for some messages. -/
def readBack {T : Type*} (encode : T → List UInt8) (msgs : List T) (line : List UInt8) : Option T :=
  msgs.find? fun msg => decide (encode msg = line)

end RustCourse.Chat
