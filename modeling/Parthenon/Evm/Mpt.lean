import Mathlib.Data.Fin.Basic
import Parthenon.Crypto.Sha256

namespace Parthenon.Evm

open Library Crypto

/-! # The Merkle Patricia trie

The trie of `mpt.cpp`.  Its walks carry the key's nibbles and an index into them;
here they carry the nibbles from that index on.  Reading a child pointer that is
not there is undefined, and a call that does so is `none`.
-/

abbrev Nibble := Fin 16

abbrev Value := Bytes

namespace MerklePatriciaTrie

/-- What a node pointer leads to.  A LEAF has no children and a BRANCH no path.
Of an EXTENSION only the first child is ever read; removal also builds one
without children out of a LEAF, which is `childless`. -/
inductive Node
  | null
  | empty
  | leaf (path : List Nibble) (value : Value)
  | extension (path : List Nibble) (value : Value) (child : Node)
  | childless (path : List Nibble) (value : Value)
  | branch (value : Value) (children : Nibble → Node)

instance : Inhabited Node := ⟨.null⟩

def toNibbles (key : Bytes) : List Nibble :=
  key.flatMap fun byte : UInt8 => [Fin.ofNat 16 (byte >>> 4).toNat, Fin.ofNat 16 (byte &&& 0x0F).toNat]

def commonPrefixLength : List Nibble → List Nibble → Nat
  | left :: lefts, right :: rights =>
      if left = right then commonPrefixLength lefts rights + 1 else 0
  | _, _ => 0

namespace Node

def isNull : Node → Bool
  | null => true
  | _ => false

/-- A null pointer or an EMPTY node. -/
def isEmpty : Node → Bool
  | null | empty => true
  | _ => false

def isExtension : Node → Bool
  | extension .. | childless .. => true
  | _ => false

def noChildren : Nibble → Node := fun _ => null

/-- An extension for a path that is not empty. -/
def extend (path : List Nibble) (child : Node) : Node :=
  if path.length > 0 then extension path [] child else child

/-- The branch that takes the place of a node whose path shares only `common`
nibbles with the key: the old node goes below its next nibble, the value where
the key leads. -/
def split (path nibbles : List Nibble) (common : Nat) (value : Value)
    (oldChild : List Nibble → Node) : Node :=
  let children :=
    match path.drop common with
    | [] => noChildren
    | nibble :: rest => Function.update noChildren nibble (oldChild rest)
  extend (path.take common) <|
    match nibbles.drop common with
    | [] => branch value children
    | nibble :: rest => branch [] (Function.update children nibble (leaf rest value))

def insert : Node → List Nibble → Value → Option Node
  | null, _, _ => none
  | empty, nibbles, value => some (leaf nibbles value)
  | branch _ children, [], value => some (branch value children)
  -- At its end the key takes the place of a leaf or an extension, whatever that held.
  | leaf .., [], value => some (branch value noChildren)
  | extension .., [], value => some (branch value noChildren)
  | childless .., [], value => some (branch value noChildren)
  | leaf path old, nibbles, value =>
      let common := commonPrefixLength nibbles path
      if common = path.length then
        match nibbles.drop common with
        | [] => some (leaf path value)
        | nibble :: rest =>
            some (extend path (branch old (Function.update noChildren nibble (leaf rest value))))
      else some (split path nibbles common value fun rest => leaf rest old)
  | extension path held child, nibbles, value =>
      let common := commonPrefixLength nibbles path
      if common = path.length then do
        let child ← child.insert (nibbles.drop common) value
        some (extension path held child)
      else some (split path nibbles common value fun rest => extension rest held child)
  | childless path held, nibbles, value =>
      let common := commonPrefixLength nibbles path
      if common = path.length then none
      else some (split path nibbles common value fun rest => childless rest held)
  | branch held children, nibble :: rest, value => do
      let child ←
        (if (children nibble).isNull then some (leaf rest value)
          else (children nibble).insert rest value)
      some (branch held (Function.update children nibble child))

/-- The value of a node, when there is one. -/
def stored (value : Value) : Option Value := if value.isEmpty then none else some value

def lookup : Node → List Nibble → Option (Option Value)
  | null, _ => some none
  | empty, _ => some none
  | leaf _ value, [] => some (stored value)
  | branch value _, [] => some (stored value)
  | extension .., [] => some none
  | childless .., [] => some none
  | leaf path value, nibbles => some (if path = nibbles then some value else none)
  | extension path _ child, nibbles =>
      if path <+: nibbles then child.lookup (nibbles.drop path.length) else some none
  | childless path _, nibbles => if path <+: nibbles then none else some none
  | branch _ children, nibble :: rest => (children nibble).lookup rest

/-- The extension that takes the place of a branch with one child left. -/
def mergeChild (nibble : Nibble) : Node → Node
  | null | empty => childless [nibble] []
  | leaf path value => childless (nibble :: path) value
  | extension path value child => extension (nibble :: path) value child
  | childless path value => childless (nibble :: path) value
  | branch value children => extension [nibble] value (children 0)

def remaining (children : Nibble → Node) : List Nibble :=
  (List.finRange 16).filter fun nibble => !(children nibble).isEmpty

/-- What `Remove` makes of a branch it went through. -/
def collapse (value : Value) (children : Nibble → Node) : Node :=
  match remaining children with
  | [] => if value.isEmpty then empty else branch value children
  | [nibble] => if value.isEmpty then mergeChild nibble (children nibble) else branch value children
  | _ => branch value children

def remove : Node → List Nibble → Option Node
  | null, _ => some null
  | empty, _ => some empty
  | leaf .., [] => some empty
  | extension path _ child, [] => some (extension path [] child)
  | childless path _, [] => some (childless path [])
  | branch _ children, [] => some (branch [] children)
  | leaf path value, nibbles => some (if path = nibbles then empty else leaf path value)
  | branch value children, nibble :: rest => do
      let child ← (children nibble).remove rest
      some (collapse value (Function.update children nibble child))
  | extension path value child, nibbles =>
      if path <+: nibbles then do
        let child ← child.remove (nibbles.drop path.length)
        some (if child.isEmpty then empty else extension path value child)
      else some (extension path value child)
  | childless path value, nibbles => if path <+: nibbles then none else some (childless path value)

def encodePath (path : List Nibble) : Bytes :=
  UInt8.ofNat path.length :: path.map fun nibble => UInt8.ofNat nibble.val

def encodeValue (value : Value) : Bytes :=
  if value.isEmpty then [0, 0]
  else UInt8.ofNat (value.length >>> 8) :: UInt8.ofNat (value.length &&& 0xFF) :: value

/-- The hash of a node with this encoding.  Only a null pointer and an EMPTY node
have an empty one. -/
def hashEncoded (encoded : Bytes) : Hash :=
  if encoded.isEmpty then zeroHash else SHA256.hash256 encoded

def encodeNode : Node → Bytes
  | null => []
  | empty => []
  | leaf path value => 1 :: encodePath path ++ encodeValue value
  | extension path value child =>
      2 :: encodePath path ++ encodeValue value ++
        if child.isNull then [] else (hashEncoded child.encodeNode).bytes
  | childless path value => 2 :: encodePath path ++ encodeValue value
  | branch value children =>
      3 :: encodeValue value ++
        (List.finRange 16).flatMap fun nibble => (hashEncoded (children nibble).encodeNode).bytes

def hashNode (node : Node) : Hash := hashEncoded node.encodeNode

end Node

end MerklePatriciaTrie

structure MerklePatriciaTrie where
  root : MerklePatriciaTrie.Node

namespace MerklePatriciaTrie

def fresh : MerklePatriciaTrie := ⟨.empty⟩

def delete (trie : MerklePatriciaTrie) (key : Bytes) : Option MerklePatriciaTrie := do
  let root ← trie.root.remove (toNibbles key)
  some { trie with root }

def put (trie : MerklePatriciaTrie) (key : Bytes) (value : Value) : Option MerklePatriciaTrie :=
  if value.isEmpty then trie.delete key
  else do
    let root ← trie.root.insert (toNibbles key) value
    some { trie with root }

def get (trie : MerklePatriciaTrie) (key : Bytes) : Option (Option Value) :=
  trie.root.lookup (toNibbles key)

def getRootHash (trie : MerklePatriciaTrie) : Hash := trie.root.hashNode

end MerklePatriciaTrie

end Parthenon.Evm
