/-
# A pool of shared objects

`ObjectID`, `Object` and `ObjectPool` of `src/src/common/utils/pattern/ObjectPool.h`, with its
clients.

| here | source |
|---|---|
| `τ` | `std::type_index` |
| `hash`, `typeName` | `std::hash<std::string>`, `typeid(T).name()` |
| a number `o` | an object that `std::shared_ptr`s point to |
| `use_count` | the counter that the `std::shared_ptr`s to an object share |
| `held` | the `std::shared_ptr`s that clients have |
| `used_objs_` | the `std::unordered_set`, whose order nothing reads |
| `Overload` | whether a name is given as `const char*` or as `std::string&` |
| `.thrown e` | an exception |

An `Object` is made with its own reference to what it is about; where it is neither stored nor
deleted, the reference stays.  What the objects hold, which the pool does not read, and `valid_`,
`need_clear_` and the debug output are left out.
-/

import Codrive.Strings.Text
import Mathlib.Logic.Function.Basic

namespace Codrive.Objects

open Codrive.Strings

variable {τ : Type} [DecidableEq τ] {hash : Str → ℕ}

/-! ### Objects and their ids -/

/-- `ObjectID`; the pool makes them of C strings only. -/
structure ObjectID (τ : Type) (hash : Str → ℕ) where
  type_idx_ : τ
  name_ : Str
  hash_ : ℕ
  hash_eq : hash_ = hash name_
  name_eq : cStr name_ = name_

/-- `GetObjectID`, of the characters of a name. -/
def getObjectID (hash : Str → ℕ) (ti : τ) (str : Str) : ObjectID τ hash :=
  ⟨ti, cStr str, hash (cStr str), rfl, cStr_cStr str⟩

/-- `ObjectID::Compare`. -/
def ObjectID.compare (id other : ObjectID τ hash) : Bool :=
  if id.hash_ ≠ other.hash_ then false
  else if id.type_idx_ ≠ other.type_idx_ then false
  else id.name_ == other.name_

/-- `Object`: `any_obj_` holds a `std::shared_ptr` to an object, as one of the type of the id. -/
structure Object (τ : Type) (hash : Str → ℕ) where
  id_ : ObjectID τ hash
  any_type : τ
  ptr : ℕ
  any_type_eq : any_type = id_.type_idx_

/-- The object of a `std::shared_ptr` under an id. -/
def newObject (id : ObjectID τ hash) (ptr : ℕ) : Object τ hash := ⟨id, id.type_idx_, ptr, rfl⟩

/-- What a call can throw. -/
inductive Thrown where
  /-- `ObjectPool::Error`, with its message. -/
  | error (message : Str)
  /-- `std::logic_error` of `anyCast`. -/
  | badCast
  /-- What the constructor of an object throws. -/
  | constructor
  deriving DecidableEq

/-- `anyCast<std::shared_ptr<T>>`. -/
def Object.anyCast (O : Object τ hash) (ti : τ) : Except Thrown ℕ :=
  if O.any_type = ti then .ok O.ptr else .error .badCast

/-! ### The pool and its clients -/

/-- The pool, the references to objects, and the number of the next object. -/
structure System (τ : Type) (hash : Str → ℕ) where
  used_objs_ : List (Object τ hash) := []
  free_objs_ : τ → List (Object τ hash) := fun _ => []
  use_count : ℕ → ℕ := fun _ => 0
  held : ℕ → ℕ := fun _ => 0
  next : ℕ := 0

/-- One more. -/
def plus (count : ℕ → ℕ) (o : ℕ) : ℕ → ℕ := Function.update count o (count o + 1)

/-- One less. -/
def minus (count : ℕ → ℕ) (o : ℕ) : ℕ → ℕ := Function.update count o (count o - 1)

/-- `used_objs_->find`. -/
def System.find (s : System τ hash) (id : ObjectID τ hash) : Option (Object τ hash) :=
  s.used_objs_.find? fun O => O.id_.compare id

/-- `used_objs_->insert`, which changes nothing where there is an equal one. -/
def System.insert (s : System τ hash) (O : Object τ hash) : System τ hash :=
  match s.find O.id_ with
  | some _ => s
  | none => { s with used_objs_ := O :: s.used_objs_ }

/-- A `std::shared_ptr` is returned to the client. -/
def System.hand (s : System τ hash) (o : ℕ) : System τ hash :=
  { s with use_count := plus s.use_count o, held := plus s.held o }

/-- What a call returns. -/
inductive Reply where
  | done (result : Bool)
  | object (o : ℕ)
  | thrown (e : Thrown)
  deriving DecidableEq

/-- The message of `Add`. -/
def addMessage (typeName : τ → Str) (ti : τ) (obj_str : Str) : Str :=
  fmt ("Object ".toList ++ obj_str ++ " of type ".toList ++ typeName ti ++
    " is is ready in Pool\n".toList)

/-- The message of `GetObjectIter`. -/
def getMessage (typeName : τ → Str) (ti : τ) (obj_str : Str) : Str :=
  fmt ("GetShared Object ".toList ++ obj_str ++ " of type ".toList ++ typeName ti ++
    " is not found Pool\n".toList)

/-- `Add`. -/
def System.add (typeName : τ → Str) (s : System τ hash) (ti : τ) (obj : ℕ) (obj_str : Str) :
    Reply × System τ hash :=
  let Oid := getObjectID hash ti obj_str
  let s := { s with use_count := plus s.use_count obj }
  match s.find Oid with
  | some _ => (.thrown (.error (addMessage typeName ti (cStr obj_str))), s)
  | none => (.done true, s.insert (newObject Oid obj))

/-- `GetObjectIter`. -/
def System.getObjectIter (typeName : τ → Str) (s : System τ hash) (ti : τ) (obj_str : Str) :
    Except Thrown (Object τ hash) :=
  match s.find (getObjectID hash ti obj_str) with
  | some O => .ok O
  | none => .error (.error (getMessage typeName ti (cStr obj_str)))

/-- `GetShared`. -/
def System.getShared (typeName : τ → Str) (s : System τ hash) (ti : τ) (obj_str : Str) :
    Reply × System τ hash :=
  match (do (← s.getObjectIter typeName ti obj_str).anyCast ti : Except Thrown ℕ) with
  | .error e => (.thrown e, s)
  | .ok o => (.object o, s.hand o)

/-- `Acquire`; `args` tells whether there are any, `throws` whether making an object of them
throws. -/
def System.acquire (s : System τ hash) (ti : τ) (obj_str : Str) (args throws : Bool) :
    Reply × System τ hash :=
  match s.free_objs_ ti with
  | O :: rest =>
    match O.anyCast ti with
    | .error e => (.thrown e, s)
    | .ok o =>
      if args && throws then (.thrown .constructor, s)
      else
        let s := s.insert O
        let s := { s with free_objs_ := Function.update s.free_objs_ ti rest }
        (.object o, s.hand o)
  | [] =>
    if throws then (.thrown .constructor, s)
    else
      let o := s.next
      let s := { s with use_count := plus s.use_count o, next := s.next + 1 }
      let s := s.insert (newObject (getObjectID hash ti obj_str) o)
      (.object o, s.hand o)

/-- `Release`; `obj` is one reference more while it looks. -/
def System.release (typeName : τ → Str) (s : System τ hash) (ti : τ) (obj_str : Str) :
    Reply × System τ hash :=
  match s.getObjectIter typeName ti obj_str with
  | .error e => (.thrown e, s)
  | .ok O =>
    match O.anyCast ti with
    | .error e => (.thrown e, s)
    | .ok obj =>
      if s.use_count obj + 1 ≤ 2 then
        (.done true, { s with
          free_objs_ := Function.update s.free_objs_ ti (s.free_objs_ ti ++ [O])
          used_objs_ := s.used_objs_.eraseP fun P => P.id_.compare O.id_ })
      else (.done false, s)

/-! ### Calls -/

/-- The two overloads of each call. -/
inductive Overload where
  | chars
  | string
  deriving DecidableEq

/-- A call of a client. -/
inductive Call (τ : Type) where
  | add (via : Overload) (ti : τ) (obj : ℕ) (name : Str)
  | acquire (via : Overload) (ti : τ) (name : Str) (args throws : Bool)
  | getShared (via : Overload) (ti : τ) (name : Str)
  | release (via : Overload) (ti : τ) (name : Str)

/-- `Acquire` of a `std::string&`: the overload that takes the arguments of the call inside is the
same one again. -/
def System.acquireString (s : System τ hash) (ti : τ) (obj_str : Str) (args throws : Bool) :
    ℕ → Option (Reply × System τ hash)
  | 0 => none
  | depth + 1 => s.acquireString ti obj_str args throws depth

/-- What a call returns and leaves, with a bound on how deep it calls itself; the other calls of a
`std::string&` go on with its `c_str()`. -/
def System.call (typeName : τ → Str) (depth : ℕ) (s : System τ hash) :
    Call τ → Option (Reply × System τ hash)
  | .add _ ti obj name => some (s.add typeName ti obj name)
  | .acquire .chars ti name args throws => some (s.acquire ti name args throws)
  | .acquire .string ti name args throws => s.acquireString ti name args throws depth
  | .getShared _ ti name => some (s.getShared typeName ti name)
  | .release _ ti name => some (s.release typeName ti name)

/-- What clients do: calls with what they return, and what they do with their references. -/
inductive Op (τ : Type) where
  | call (c : Call τ) (r : Reply)
  | make
  | copy (o : ℕ)
  | drop (o : ℕ)

/-- Clients add only what they have. -/
def Call.Possible (s : System τ hash) : Call τ → Prop
  | .add _ _ obj _ => 0 < s.held obj
  | _ => True

/-- A step of the clients. -/
def Step (typeName : τ → Str) (s : System τ hash) : Op τ → System τ hash → Prop
  | .call c r, t => c.Possible s ∧ ∃ depth, s.call typeName depth c = some (r, t)
  | .make, t => t = { s.hand s.next with next := s.next + 1 }
  | .copy o, t => 0 < s.held o ∧ t = s.hand o
  | .drop o, t =>
    0 < s.held o ∧ t = { s with use_count := minus s.use_count o, held := minus s.held o }

end Codrive.Objects
