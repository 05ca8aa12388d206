import Mathlib.Algebra.Order.Ring.Nat
import Mathlib.Data.Int.Basic
import Mathlib.Tactic.Common

/-! The few operations of Python's `str`, `bytes` and `int` that protocol lines are built
from and taken apart with. Text is a list of characters. -/

namespace Python

abbrev Bytes := List UInt8

abbrev Text := List Char

/-- `x.to_bytes(k, "big")` for `x` below `256 ^ k`. -/
def toBytesBig : ℕ → ℕ → Bytes
  | 0, _ => []
  | k + 1, x => toBytesBig k (x / 256) ++ [UInt8.ofNat (x % 256)]

/-- `b.decode("ascii", errors="replace")` -/
def decodeAscii (b : Bytes) : Text :=
  b.map fun x => if x < 128 then Char.ofNat x.toNat else '\uFFFD'

/-- What `strip()` and `split()` take for white space, among ASCII characters. -/
def isSpace (c : Char) : Bool :=
  c = ' ' || (9 ≤ c.toNat && c.toNat ≤ 13) || (28 ≤ c.toNat && c.toNat ≤ 31)

def strip (s : Text) : Text := ((s.dropWhile isSpace).reverse.dropWhile isSpace).reverse

/-- `s.split()` -/
def split (s : Text) : List Text := (s.splitOnP isSpace).filter (· ≠ [])

def digitVal (c : Char) : ℕ :=
  if '0' ≤ c && c ≤ '9' then c.toNat - '0'.toNat
  else if 'a' ≤ c && c ≤ 'z' then c.toNat - 'a'.toNat + 10
  else if 'A' ≤ c && c ≤ 'Z' then c.toNat - 'A'.toNat + 10
  else 36

/-- Digits of `int`: at least one, and single underscores between them. -/
def digits (base : ℕ) (acc : ℕ) : Text → Option ℕ
  | [] => none
  | [c] => if digitVal c < base then some (acc * base + digitVal c) else none
  | c :: '_' :: cs =>
    if digitVal c < base then digits base (acc * base + digitVal c) cs else none
  | c :: d :: cs =>
    if digitVal c < base then digits base (acc * base + digitVal c) (d :: cs) else none

/-- The marker `int(s, 16)` allows before the digits, with an underscore after it. -/
def dropMarker (base : ℕ) : Text → Text
  | '0' :: x :: '_' :: cs => if base = 16 ∧ (x = 'x' ∨ x = 'X') then cs else '0' :: x :: '_' :: cs
  | '0' :: x :: cs => if base = 16 ∧ (x = 'x' ∨ x = 'X') then cs else '0' :: x :: cs
  | s => s

/-- `int(s, base)` for a word without white space; `none` is `ValueError`. -/
def int (base : ℕ) : Text → Option ℤ
  | '-' :: s => (digits base 0 (dropMarker base s)).map fun n => -(n : ℤ)
  | '+' :: s => (digits base 0 (dropMarker base s)).map fun n => (n : ℤ)
  | s => (digits base 0 (dropMarker base s)).map fun n => (n : ℤ)

/-- `bytes.fromhex(s)` for a word without white space; `none` is `ValueError`. -/
def fromHex : Text → Option Bytes
  | [] => some []
  | [_] => none
  | a :: b :: cs =>
    if digitVal a < 16 ∧ digitVal b < 16 then
      (fromHex cs).map fun bs => UInt8.ofNat (digitVal a * 16 + digitVal b) :: bs
    else none

/-- The exceptions a program can end with, with the text of those it raises itself. -/
inductive Exn where
  | valueError (msg : String)
  | runtimeError (msg : String)
  | timeoutError (msg : String)
  /-- `int` or `bytes.fromhex` on a word that is not a number. -/
  | invalidLiteral
  /-- `cryptography.exceptions.InvalidTag` -/
  | invalidTag
  deriving DecidableEq

/-- An optional value, or the exception for its absence. -/
def orRaise {α : Type} (e : Exn) : Option α → Except Exn α
  | some a => .ok a
  | none => .error e

end Python
