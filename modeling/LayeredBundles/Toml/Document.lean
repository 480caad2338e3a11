import LayeredBundles.Toml.Scan

/-! # TOML documents

A document is a sequence of lines: key-value pairs, headers of tables, and headers of tables in a list.
Tables are built item by item, because what may still be added to a table depends on how it came to be.

* **`Toml.value`** — a value;
* **`Toml.Item`** — an item of a table under construction;
* **`Toml.Builder`** — the tables finished so far and the one whose lines are read;
* **`Toml.parse?`** — the table a document stands for, or nothing when it is not well formed. -/

namespace LayeredBundles

namespace Toml

/-- Values and keys nest less deeply than this. -/
def depthLimit : Nat := 80

/-! ## (1) Keys and blanks -/

/-- Whether a character may stand in a bare key. -/
def isKeyChar (c : Char) : Bool := c.isAlphanum || c = '_' || c = '-'

/-- One part of a key. -/
def keyPart : Scan String
  | '"' :: rest => shortText ('"' :: rest)
  | '\x27' :: rest => shortText ('\x27' :: rest)
  | cs =>
    let run := cs.takeWhile isKeyChar
    if run = [] then none else some (String.ofList run, cs.dropWhile isKeyChar)

/-- The parts of a key, with dots and optional blanks between them. Each part takes a character at least,
so `steps` parts at most have to be read when there are `steps` characters. -/
def keyParts : Nat → Scan (List String)
  | 0, _ => none
  | steps + 1, cs => do
    let (part, cs) ← keyPart (skipBlanks cs)
    match skipBlanks cs with
    | '.' :: rest =>
      let (parts, rest) ← keyParts steps rest
      return (part :: parts, rest)
    | rest => return ([part], rest)

/-- A key. -/
def key (cs : List Char) : Option (List String × List Char) :=
  (keyParts (cs.length + 1) cs).filter fun r => r.1.length < depthLimit

/-- The characters after a comment, if there is one; nothing when it holds a control character. -/
def skipComment : List Char → Option (List Char)
  | '#' :: rest =>
    let after := rest.dropWhile isPlain
    match after with
    | [] => some []
    | '\n' :: _ => some after
    | '\r' :: '\n' :: _ => some after
    | _ => none
  | cs => some cs

/-- The characters after blanks, ends of lines and comments. -/
def skipLines : Nat → List Char → Option (List Char)
  | 0, cs => some cs
  | steps + 1, cs =>
    match skipBlanks cs with
    | '\n' :: rest => skipLines steps rest
    | '\r' :: '\n' :: rest => skipLines steps rest
    | '#' :: rest => (skipComment ('#' :: rest)).bind (skipLines steps)
    | cs => some cs

/-- The characters after blanks, ends of lines and comments. -/
def skipAll (cs : List Char) : Option (List Char) := skipLines (cs.length + 1) cs

/-! ## (2) Tables under construction -/

/-- An item of a table. -/
inductive Item where
  /-- A value that is complete. -/
  | leaf (value : Toml)
  /-- A table. It is `implicit` when only tables or pairs below it have been given, and `dotted` when it
  came to be by a dotted key. -/
  | table (implicit dotted : Bool) (items : List (String × Item))
  /-- A list of tables. -/
  | tables (elements : List (List (String × Item)))

/-- The items of a table. -/
abbrev Items := List (String × Item)

/-- Change the table at a path. Tables missing on the way are made, implicit ones; of a list of tables
the last one is entered. A dotted key does not enter a table that a header has given. `f` is told
whether the table came to be by a dotted key. -/
def alterAt {α : Type} (viaDots : Bool) (f : Bool → Items → Option (Items × α)) :
    List String → Bool → Items → Option (Items × α)
  | [], dotted, items => f dotted items
  | k :: path, _, items =>
    match Table.find? items k with
    | none => do
      let (sub, a) ← alterAt viaDots f path viaDots []
      return (Table.insert k (.table true viaDots sub) items, a)
    | some (.leaf _) => none
    | some (.table implicit dotted sub) =>
      -- a table that a header gave takes no more pairs through dotted keys
      if viaDots && !implicit then none
      else do
        let (sub, a) ← alterAt viaDots f path dotted sub
        return (Table.insert k (.table implicit dotted sub) items, a)
    | some (.tables elements) => do
      let last ← elements.getLast?
      let (sub, a) ← alterAt viaDots f path false last
      return (Table.insert k (.tables (elements.dropLast ++ [sub])) items, a)

/-- Add a pair to a table: the key has to be new, and a dotted key ends in a table that came to be by
dotted keys. -/
def addPair (items : Items) (path : List String) (item : Item) : Option Items := do
  let last ← path.getLast?
  let front := path.dropLast
  let put (dotted : Bool) (items : Items) : Option (Items × Unit) :=
    if dotted = front.isEmpty || Table.contains items last then none
    else some (Table.insert last item items, ())
  (alterAt true put front false items).map (·.1)

mutual

/-- The value of an item. -/
def Item.toValue : Item → Toml
  | .leaf v => v
  | .table _ _ items => .table (itemsValue items)
  | .tables elements => .array (elementsValue elements)

/-- The values of the items of a table. -/
def itemsValue : List (String × Item) → List (String × Toml)
  | [] => []
  | (k, i) :: rest => (k, i.toValue) :: itemsValue rest

/-- The values of the tables of a list. -/
def elementsValue : List (List (String × Item)) → List Toml
  | [] => []
  | items :: rest => .table (itemsValue items) :: elementsValue rest

end

/-! ## (3) Values -/

/-- The items of an array after its bracket; blanks, ends of lines and comments may stand anywhere
between them, and a comma after the last one. -/
def arrayItems (item : Scan Toml) : Nat → Scan (List Toml)
  | 0, _ => none
  | steps + 1, cs => do
    match ← skipAll cs with
    | ']' :: rest => return ([], rest)
    | cs =>
      let (v, cs) ← item cs
      match ← skipAll cs with
      | ',' :: rest =>
        let (vs, rest) ← arrayItems item steps rest
        return (v :: vs, rest)
      | ']' :: rest => return ([v], rest)
      | _ => none

/-- A key, the equals sign and a value. -/
def pair (item : Scan Toml) (cs : List Char) : Option ((List String × Toml) × List Char) := do
  let (k, cs) ← key cs
  let cs ← expect '=' (skipBlanks cs)
  let (v, cs) ← item (skipBlanks cs)
  return ((k, v), cs)

/-- The pairs of a table in braces after the first of them, added to `items`. All of it stands on one
line, and there is no comma after the last pair. -/
def inlinePairs (item : Scan Toml) : Nat → Items → Scan Items
  | 0, _, _ => none
  | steps + 1, items, cs => do
    let ((k, v), cs) ← pair item (skipBlanks cs)
    let items ← addPair items k (.leaf v)
    match skipBlanks cs with
    | ',' :: rest => inlinePairs item steps items rest
    | '}' :: rest => return (items, rest)
    | _ => none

/-- A table in braces after the first of them. -/
def inlineTable (item : Scan Toml) (cs : List Char) : Option (Toml × List Char) :=
  match skipBlanks cs with
  | '}' :: rest => some (.table [], rest)
  | cs => do
    let (items, rest) ← inlinePairs item (cs.length + 1) [] cs
    return (.table (itemsValue items), rest)

/-- A value with `depth` levels at most. -/
def value : Nat → Scan Toml
  | 0, _ => none
  | depth + 1, cs =>
    match cs with
    | '"' :: _ => (text cs).map fun (s, rest) => (.string s, rest)
    | '\x27' :: _ => (text cs).map fun (s, rest) => (.string s, rest)
    | '[' :: rest =>
      if depth = 0 then none
      else (arrayItems (value depth) (rest.length + 1) rest).map fun (vs, rest) => (.array vs, rest)
    | '{' :: rest => if depth = 0 then none else inlineTable (value depth) rest
    | cs =>
      let (run, rest) := bareRun cs
      (scalar? run).map fun v => (v, rest)

/-! ## (4) Lines -/

/-- The tables finished so far, and the table whose lines are read: its items, its path, and whether it
is the next one of a list. -/
structure Builder where
  /-- The items of the document. -/
  root : Items
  /-- The items of the table that is read. -/
  current : Items
  /-- Its path; empty for the document itself. -/
  path : List String
  /-- Whether it belongs to a list of tables. -/
  inList : Bool

/-- Nothing has been read. -/
def Builder.empty : Builder := ⟨[], [], [], false⟩

/-- Put the table that is read into its place. -/
def Builder.close (b : Builder) : Option Items :=
  match b.path.getLast? with
  | none => some b.current
  | some last =>
    let put (_ : Bool) (items : Items) : Option (Items × Unit) :=
      match Table.find? items last, b.inList with
      | none, true => some (Table.insert last (.tables [b.current]) items, ())
      | some (.tables elements), true =>
        some (Table.insert last (.tables (elements ++ [b.current])) items, ())
      | none, false => some (Table.insert last (.table false false b.current) items, ())
      | _, _ => none
    (alterAt false put b.path.dropLast false b.root).map (·.1)

/-- Begin the table of a header. A table that is only implicit so far keeps what is below it; any other
item in its place is refused. -/
def Builder.openTable (b : Builder) (path : List String) : Option Builder := do
  let root ← b.close
  let last ← path.getLast?
  let take (_ : Bool) (items : Items) : Option (Items × Items) :=
    match Table.find? items last with
    | none => some (items, [])
    | some (.table true false sub) => some (Table.erase last items, sub)
    | some _ => none
  let (root, current) ← alterAt false take path.dropLast false root
  return ⟨root, current, path, false⟩

/-- Begin the next table of a list. -/
def Builder.openElement (b : Builder) (path : List String) : Option Builder := do
  let root ← b.close
  return ⟨root, [], path, true⟩

/-- Add a pair to the table that is read. -/
def Builder.add (b : Builder) (k : List String) (v : Toml) : Option Builder := do
  let current ← addPair b.current k (.leaf v)
  return { b with current }

/-- The rest of a line after what it says: blanks and a comment. -/
def lineEnd (cs : List Char) : Option (List Char) := do
  match ← skipComment (skipBlanks cs) with
  | [] => some []
  | '\n' :: rest => some rest
  | '\r' :: '\n' :: rest => some rest
  | _ => none

/-- One line. -/
def line (b : Builder) (cs : List Char) : Option (Builder × List Char) :=
  match skipBlanks cs with
  | '[' :: '[' :: rest => do
    let (k, rest) ← key rest
    let rest ← (expect ']' rest).bind (expect ']')
    let b ← b.openElement k
    return (b, ← lineEnd rest)
  | '[' :: rest => do
    let (k, rest) ← key rest
    let rest ← expect ']' rest
    let b ← b.openTable k
    return (b, ← lineEnd rest)
  | cs@('#' :: _) => (lineEnd cs).map fun rest => (b, rest)
  | cs@('\n' :: _) => (lineEnd cs).map fun rest => (b, rest)
  | cs@('\r' :: _) => (lineEnd cs).map fun rest => (b, rest)
  | [] => some (b, [])
  | cs => do
    let ((k, v), rest) ← pair (value depthLimit) cs
    let b ← b.add k v
    return (b, ← lineEnd rest)

/-- The lines of a document. Each takes a character at least, so `steps` lines at most have to be read
when there are `steps` characters. -/
def lines : Nat → Builder → List Char → Option Builder
  | _, b, [] => some b
  | 0, b, _ => some b
  | steps + 1, b, cs => do
    let (b, rest) ← line b cs
    lines steps b rest

/-- The table a document stands for. A byte order mark may stand in front of it. -/
def parse? (s : String) : Option Toml := do
  let cs := match s.toList with
    | '\ufeff' :: rest => rest
    | cs => cs
  let b ← lines (cs.length + 1) Builder.empty cs
  let root ← b.close
  return .table (itemsValue root)

end Toml

end LayeredBundles
