import LayeredBundles.Archive.Entry

/-! # Members of a container

Both container formats are read as a list of members, in the order in which the container lists them.

* **`Body`** — where the bytes of a file stand, and how they are packed;
* **`Member`** — an entry, its recorded checksum and its body. -/

namespace LayeredBundles

/-- How the bytes of a file are packed. -/
inductive Packing where
  /-- As they are. -/
  | stored
  /-- Deflated. -/
  | deflated
  /-- In a way that cannot be unpacked: by an unknown method, or behind a password. -/
  | unsupported
  deriving DecidableEq, Repr

/-- Where the bytes of a member stand. -/
inductive Body where
  /-- A directory has none. -/
  | none
  /-- A run of the container's bytes. -/
  | span (offset length : Nat)
  /-- A run of packed bytes, with the check value of what they unpack to. -/
  | packed (packing : Packing) (offset length : Nat) (checksum : UInt32)
  deriving DecidableEq, Repr

/-- A member of a container. -/
structure Member where
  /-- The entry, its path in normal form. -/
  entry : Entry
  /-- The recorded checksum, if the format has one. -/
  checksum : Option UInt32
  /-- Where the bytes stand. -/
  body : Body
  deriving DecidableEq, Repr

end LayeredBundles
