namespace Concordance.Toml

-- How a table came to be, which decides what may still be added to it.
inductive Origin where
  -- written as a value; nothing may be added
  | inline
  -- by a header of its own
  | headed
  -- by the header of a table inside it
  | implied
  -- by a key with dots
  | dotted
deriving DecidableEq, Repr

-- A value of a settings file. Floats and moments in time are kept as they are written.
inductive Value where
  | text (s : String)
  | integer (n : Int)
  | float (written : List Char)
  | bool (b : Bool)
  | moment (written : List Char)
  | array (items : List Value)
  | table (origin : Origin) (members : List (String × Value))
  -- the tables under one repeated header, the latest one last
  | tables (items : List (List (String × Value)))

abbrev Members := List (String × Value)

-- Puts a value in the place of the one with the same key.
def replace (key : String) (value : Value) (members : Members) : Members :=
  members.map (fun m => if m.1 = key then (key, value) else m)

-- Adds a value under a key with dots to an open table. The tables on the way are made, or
-- were made by headers or by other such keys; the last one must not belong to a header.
def put? (value : Value) : List String → String → Bool → Members → Option Members
  | [], key, isOpen, members =>
    if isOpen && (members.lookup key).isNone then some (members ++ [(key, value)]) else none
  | step :: path, key, _, members =>
    match members.lookup step with
    | none =>
      (put? value path key true []).map fun inner => members ++ [(step, .table .dotted inner)]
    | some (.table .dotted inner) =>
      (put? value path key true inner).map fun inner =>
        replace step (.table .dotted inner) members
    | some (.table .implied inner) =>
      (put? value path key false inner).map fun inner =>
        replace step (.table .implied inner) members
    | some (.tables items) =>
      match items.getLast? with
      | none => none
      | some last =>
        (put? value path key false last).map fun inner =>
          replace step (.tables (items.dropLast ++ [inner])) members
    | some _ => none

-- Changes the table under a path of headers, and makes the tables on the way.
def within? (change : Members → Option Members) : List String → Members → Option Members
  | [], members => change members
  | step :: path, members =>
    match members.lookup step with
    | none =>
      (within? change path []).map fun inner => members ++ [(step, .table .implied inner)]
    | some (.table .inline _) => none
    | some (.table origin inner) =>
      (within? change path inner).map fun inner => replace step (.table origin inner) members
    | some (.tables items) =>
      match items.getLast? with
      | none => none
      | some last =>
        (within? change path last).map fun inner =>
          replace step (.tables (items.dropLast ++ [inner])) members
    | some _ => none

-- Opens the table of a header. A table has one header at most, and none when keys with
-- dots made it.
def openTable? (key : String) (members : Members) : Option Members :=
  match members.lookup key with
  | none => some (members ++ [(key, .table .headed [])])
  | some (.table .implied inner) => some (replace key (.table .headed inner) members)
  | some _ => none

-- Opens a further table of a repeated header.
def openItem? (key : String) (members : Members) : Option Members :=
  match members.lookup key with
  | none => some (members ++ [(key, .tables [[]])])
  | some (.tables items) => some (replace key (.tables (items ++ [[]])) members)
  | some _ => none

end Concordance.Toml
