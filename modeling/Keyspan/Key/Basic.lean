import Keyspan.Bytes
import Keyspan.Text.Quoted
import Keyspan.Text.Utf8

set_option autoImplicit false
set_option relaxedAutoImplicit false

namespace Keyspan

/-- The type of one key field. Strings, raw and fixed-width records order by their bytes, integers
and record numbers by their value. -/
inductive FieldType
  | string
  | int
  | recno
  | fixed (width : Nat) (pos : 0 < width)
  | raw
  deriving DecidableEq, Repr

/-- A typed key. A table whose format has several fields takes tuples. -/
inductive Key
  | string (text : String)
  | int (value : Int64)
  | recno (number : UInt64)
  | fixed (bytes : Bytes)
  | raw (bytes : Bytes)
  | tuple (fields : List Key)
  deriving Repr

inductive Kind
  | string
  | int
  | recno
  | fixed
  | raw
  | tuple
  deriving DecidableEq, Repr

namespace Kind

def name : Kind → String
  | string => "string"
  | int => "int"
  | recno => "recno"
  | fixed => "fixed"
  | raw => "raw"
  | tuple => "tuple"

end Kind

namespace FieldType

def kind : FieldType → Kind
  | string => .string
  | int => .int
  | recno => .recno
  | fixed _ _ => .fixed
  | raw => .raw

def ofLetter? (c : Char) : Option FieldType :=
  if c = 'S' then some string
  else if c = 'q' ∨ c = 'i' then some int
  else if c = 'r' then some recno
  else if c = 'u' then some raw
  else none

end FieldType

namespace Key

def kind : Key → Kind
  | string _ => .string
  | int _ => .int
  | recno _ => .recno
  | fixed _ => .fixed
  | raw _ => .raw
  | tuple _ => .tuple

mutual

def decEq : (a b : Key) → Decidable (a = b)
  | a, b =>
    if h : a.kind = b.kind then
      match a, b, h with
      | string s, string t, _ => decidable_of_iff (s = t) (by simp)
      | int i, int j, _ => decidable_of_iff (i = j) (by simp)
      | recno m, recno n, _ => decidable_of_iff (m = n) (by simp)
      | fixed x, fixed y, _ => decidable_of_iff (x = y) (by simp)
      | raw x, raw y, _ => decidable_of_iff (x = y) (by simp)
      | tuple xs, tuple ys, _ =>
        match decEqs xs ys with
        | isTrue e => isTrue (congrArg tuple e)
        | isFalse ne => isFalse fun e => ne (tuple.inj e)
    else isFalse fun e => h (congrArg kind e)

def decEqs : (xs ys : List Key) → Decidable (xs = ys)
  | [], [] => isTrue rfl
  | [], _ :: _ => isFalse nofun
  | _ :: _, [] => isFalse nofun
  | x :: xs, y :: ys =>
    match decEq x y, decEqs xs ys with
    | isTrue e, isTrue es => isTrue (by rw [e, es])
    | isFalse ne, _ => isFalse fun e => ne (List.cons.inj e).1
    | _, isFalse ne => isFalse fun e => ne (List.cons.inj e).2

end

instance : DecidableEq Key := decEq

mutual

def text : Key → String
  | string s => Text.quote s
  | int i => i.toInt.repr
  | recno n => "#" ++ n.toNat.repr
  | fixed b => Text.quote (Text.Utf8.decode b)
  | raw b => Text.quote (Text.Utf8.decode b)
  | tuple fields => "(" ++ String.intercalate ", " (texts fields) ++ ")"

def texts : List Key → List String
  | [] => []
  | key :: rest => text key :: texts rest

end

end Key

end Keyspan
