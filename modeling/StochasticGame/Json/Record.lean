import StochasticGame.Json.Typed

/-!
# StochasticGame.Json.Record

**Reading records.** A record has named fields, each with a reader that yields a
change of the record. It is written as an object with any of the fields, in any
order, each at most once; or as an array of the first so many fields in their
order. A field that is not written keeps its default, and an object may have
further members, which are skipped.
-/

namespace StochasticGame.Json

/-- A field of a record of type `σ`. -/
structure RecordField (σ : Type) where
  /-- The name. -/
  name : String
  /-- The reader of the field's value, as a change of the record. -/
  read : Reader (σ → σ)

namespace Reader

variable {σ : Type}

/-- Read the elements of an array as fields in order, up to the closing bracket.
The flag says whether an element stands before. -/
def elements : List (RecordField σ) → Bool → σ → Reader σ
  | [], _, record => do
    expect ']'
    pure record
  | field :: rest, started, record => do
    let c ← peek
    if c = ']' then
      advance
      pure record
    else
      if started then
        if c = ',' then
          advance
          if (← peek) = ']' then throw .malformed
        else throw .malformed
      let change ← field.read
      elements rest true (change record)

/-- Take the opening quote of the next key of an object, or the closing bracket.
The flag says whether a member stands before; the answer, whether there is a
key. -/
def nextKey (started : Bool) : Reader Bool := do
  let c ← peek
  if c = '}' then
    advance
    pure false
  else if started then
    if c = ',' then
      advance
      expect '"'
      pure true
    else throw .malformed
  else
    expect '"'
    pure true

/-- Read the members of an object up to the closing bracket, at most as many as
the limit says. The list holds the names of the fields read so far. -/
def members (fields : List (RecordField σ)) : Nat → Bool → List String → σ → Reader σ
  | 0, _, _, _ => throw .malformed
  | limit + 1, started, seen, record => do
    if ← nextKey started then
      let key ← string .wanted
      match fields.find? (·.name = key) with
      | some field =>
        if key ∈ seen then throw (.misfit (.duplicateField key))
        expect ':'
        let change ← field.read
        members fields limit true (key :: seen) (change record)
      | none =>
        expect ':'
        skip
        members fields limit true seen record
    else pure record

/-- Read a record with a name, starting from its defaults. -/
def record (name : String) (fields : List (RecordField σ)) (defaults : σ) : Reader σ := do
  match ← peek with
  | '[' =>
    advance
    elements fields false defaults
  | '{' =>
    advance
    members fields ((← get).length + 1) false [] defaults
  | _ => wrongType ("struct " ++ name)

end Reader

end StochasticGame.Json
