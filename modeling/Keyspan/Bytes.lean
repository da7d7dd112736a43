/-!
Byte strings, and readers that consume them from the front.

A `Reader` either gives a result and the bytes it left, or fails. Numbers of fixed width are
digit lists in base 256.
-/

set_option autoImplicit false
set_option relaxedAutoImplicit false

namespace Keyspan

abbrev Bytes := List UInt8

namespace Bytes

/-- Whether there are at least `n` bytes. No more than `n` are looked at. -/
def holds : Nat → Bytes → Bool
  | 0, _ => true
  | _ + 1, [] => false
  | n + 1, _ :: rest => holds n rest

/-- The first `n` bytes and the rest, provided there are that many. -/
def cut? (n : Nat) (b : Bytes) : Option (Bytes × Bytes) :=
  if holds n b then some (b.splitAt n) else none

def littleEndian : Nat → Nat → Bytes
  | 0, _ => []
  | width + 1, n => n.toUInt8 :: littleEndian width (n / 256)

def ofLittleEndian : Bytes → Nat
  | [] => 0
  | b :: rest => b.toNat + 256 * ofLittleEndian rest

def bigEndian (width n : Nat) : Bytes :=
  (littleEndian width n).reverse

def ofBigEndian (b : Bytes) : Nat :=
  b.foldl (fun n x => 256 * n + x.toNat) 0

def listing (b : Bytes) : String :=
  "[" ++ String.intercalate ", " (b.map fun x => x.toNat.repr) ++ "]"

/-- The text these bytes spell in UTF-8, if they do. -/
def toText? (b : Bytes) : Option String :=
  String.fromUTF8? (ByteArray.mk b.toArray)

def ofText (s : String) : Bytes :=
  s.toUTF8.data.toList

theorem holds_iff (n : Nat) (b : Bytes) : holds n b = true ↔ n ≤ b.length := by
  induction n generalizing b with
  | zero => simp [holds]
  | succ n ih => cases b <;> simp [holds, ih]

theorem toText?_ofText (s : String) : toText? (ofText s) = some s := by
  have h : ByteArray.mk (ofText s).toArray = s.toByteArray := by simp [ofText]
  rw [toText?, h, String.fromUTF8?, dif_pos s.isValidUTF8]
  rfl

end Bytes

/-- A reader takes what it understands off the front and leaves the rest, or fails. -/
abbrev Reader (α : Type) := StateT Bytes Option α

namespace Reader

def byte : Reader UInt8
  | [] => none
  | b :: rest => some (b, rest)

/-- Runs a reader `n` times over, after the results in `done`, which are held last one first. -/
def timesAfter {α : Type} (r : Reader α) : Nat → List α → Reader (List α)
  | 0, done, src => some (done.reverse, src)
  | n + 1, done, src =>
    match r src with
    | some (x, rest) => timesAfter r n (x :: done) rest
    | none => none

def times {α : Type} (n : Nat) (r : Reader α) : Reader (List α) :=
  timesAfter r n []

theorem timesAfter_eq {α : Type} (r : Reader α) (n : Nat) (done : List α) (src : Bytes) :
    timesAfter r n done src =
      (times n r src).map fun (xs, rest) => (done.reverse ++ xs, rest) := by
  induction n generalizing done src with
  | zero => simp [timesAfter, times]
  | succ n ih =>
    simp only [times, timesAfter]
    cases r src with
    | none => rfl
    | some p =>
      obtain ⟨x, rest⟩ := p
      simp only [ih (x :: done), ih [x], Option.map_map]
      congr 1
      funext p
      simp

theorem times_zero {α : Type} (r : Reader α) : times 0 r = pure [] := rfl

theorem times_succ {α : Type} (n : Nat) (r : Reader α) :
    times (n + 1) r = (do
      let x ← r
      let xs ← times n r
      pure (x :: xs)) := by
  funext src
  simp only [times, timesAfter, bind, StateT.bind]
  cases r src with
  | none => rfl
  | some p =>
    obtain ⟨x, rest⟩ := p
    simp only [Option.bind_some, timesAfter_eq r n [x] rest, times]
    cases timesAfter r n [] rest <;> rfl

/-- What the reader makes of the whole of `src`; anything left over is a failure. -/
def all? {α : Type} (r : Reader α) (src : Bytes) : Option α :=
  match r src with
  | some (x, []) => some x
  | _ => none

end Reader

end Keyspan
