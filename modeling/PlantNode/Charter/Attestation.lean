import PlantNode.Foundation.JsonIntegers
import PlantNode.Foundation.JsonText

/-!
# The attestation answers of the charter

`attestation.py` and `handle_attestation_message`.  How Python prints a float is a
parameter.
-/

namespace PlantNode.Charter

open Foundation

def points (s : String) : List ℕ := Json.points (ascii s)

/-- `d.get(key)` -/
def member (key : List ℕ) (members : List (List ℕ × Json)) : Option Json :=
  (members.find? fun m ↦ m.1 = key).map Prod.snd

/-- `ATTESTATION_QUERY` -/
def attestationQuery : List ℕ := points "am_i_attested"

def isString (value : List ℕ) : Option Json → Bool
  | some (.string s) => decide (s = value)
  | _ => false

def parseRequest (raw : List UInt8) : Option (List (List ℕ × Json)) :=
  match Json.loads raw with
  | some (.object members) =>
      if isString attestationQuery (member (points "query") members) then some members else none
  | _ => none

def buildResponse (float : List UInt8 → List UInt8) (request : List (List ℕ × Json)) :
    List UInt8 :=
  let device := (member (points "device") request).getD (.string (points "unknown"))
  Json.dumps float (.object [(points "attested", .bool true), (points "device", device)])

/-- What `handle_attestation_message` publishes; `printed` is false when the line that
logs the query raises an exception. -/
def handleAttestationMessage (float : List UInt8 → List UInt8) (mqttClient printed : Bool)
    (raw : List UInt8) : Option (List UInt8) :=
  match parseRequest raw with
  | none => none
  | some request => if printed && mqttClient then some (buildResponse float request) else none

/-- How every answer starts. -/
theorem buildResponse_starts (float : List UInt8 → List UInt8)
    (request : List (List ℕ × Json)) :
    ascii "\x7b\"attested\": true" <+: buildResponse float request := by
  have hkey : Json.stringText (points "attested") = ascii "\"attested\"" := by decide
  have htext : ascii "\x7b\"attested\": true" =
      Json.openBrace :: (ascii "\"attested\"" ++ ascii ": " ++ ascii "true") := by decide
  simp only [buildResponse, Json.dumps, Json.dumpMembers, Json.dumpMember, hkey, htext,
    List.append_assoc, List.cons_append]
  exact ⟨_, by simp only [List.append_assoc, List.cons_append]; rfl⟩

end PlantNode.Charter
