import DualShell.Stream.BytePipe
import DualShell.Value.Basic

/-!
# Reading bytes by lines, by pieces and to the end

A reader fetches bytes from a supply in large pieces and hands them out in the portions it is asked for. What it fetched
and did not hand out stays with it: `ahead` are bytes not looked at, `started` the beginning of a line whose end has not
come. A read that has to wait can therefore be given up at any time and nothing is lost.

Each kind of read is a step that moves at most one piece. `Step.more` says that the step made progress and wants to go
on.
-/

namespace DualShell

/-- The result of fetching from a supply. -/
inductive Fetch
  /-- Nothing is there yet. -/
  | pending
  /-- What came; nothing at the end. -/
  | bytes (data : Bytes)
  | failed (cause : Cause)

/-- The result of one step of a read. -/
inductive Step (α : Type)
  /-- Nothing can be done before someone else moves. -/
  | blocked
  /-- Something was moved; the read is not finished. -/
  | more
  | done (a : α)
  | failed (cause : Cause)

/-- The same step with another form of its result. -/
def Step.map {α β : Type} (f : α → β) : Step α → Step β
  | .blocked => .blocked
  | .more => .more
  | .done a => .done (f a)
  | .failed cause => .failed cause

/-- Bytes fetched and not handed out: the beginning of a line, latest byte first, then what has not been looked at. -/
structure LineReader where
  started : Bytes
  ahead : Bytes
  deriving DecidableEq, Repr

/-- How many bytes are fetched at once. -/
def fetchSize : Nat := 8192

/-- The bytes before the first newline and those after it, if there is one. -/
def splitLine : Bytes → Option (Bytes × Bytes)
  | [] => none
  | b :: bs =>
    if b == 10 then some ([], bs)
    else
      match splitLine bs with
      | none => none
      | some (line, rest) => some (b :: line, rest)

/-- The text of a line that was ended by a newline: without one carriage return before it. -/
def endedLine (line : Bytes) : String :=
  let text := Utf8.decodeLenient line
  if text.toList.getLast? == some '\r' then String.ofList text.toList.dropLast else text

namespace LineReader

/-- A reader that holds nothing. -/
def empty : LineReader := ⟨[], []⟩

/-- All it holds, in order. -/
def held (r : LineReader) : Bytes :=
  r.started.reverse ++ r.ahead

/-- Count bytes as looked at. -/
def pass (r : LineReader) (data : Bytes) : LineReader :=
  { r with started := data.reverseAux r.started }

variable {σ : Type}

/-- A step towards the next line; none at the end. -/
def line (fetch : Nat → σ → Fetch × σ) (r : LineReader) (s : σ) : Step (Option String) × LineReader × σ :=
  if r.ahead.isEmpty then
    match fetch fetchSize s with
    | (.pending, s) => (.blocked, r, s)
    | (.failed cause, s) => (.failed cause, r, s)
    | (.bytes data, s) =>
      if data.isEmpty then
        if r.started.isEmpty then (.done none, r, s)
        else (.done (some (Utf8.decodeLenient r.started.reverse)), { r with started := [] }, s)
      else (.more, { r with ahead := data }, s)
  else
    match splitLine r.ahead with
    | some (front, rest) => (.done (some (endedLine (r.pass front).started.reverse)), ⟨[], rest⟩, s)
    | none => (.more, { r.pass r.ahead with ahead := [] }, s)

/-- A step towards all bytes up to the end. -/
def toEnd (fetch : Nat → σ → Fetch × σ) (r : LineReader) (s : σ) : Step Bytes × LineReader × σ :=
  if r.ahead.isEmpty then
    match fetch fetchSize s with
    | (.pending, s) => (.blocked, r, s)
    | (.failed cause, s) => (.failed cause, r, s)
    | (.bytes data, s) =>
      if data.isEmpty then (.done r.started.reverse, { r with started := [] }, s)
      else (.more, r.pass data, s)
  else (.more, { r.pass r.ahead with ahead := [] }, s)

/-- A step towards at most `count` bytes, at least one if `count` is positive and the end has not come. They are taken
from one place: what is left of a started line stays started. -/
def upTo (fetch : Nat → σ → Fetch × σ) (count : Nat) (r : LineReader) (s : σ) : Step Bytes × LineReader × σ :=
  if !r.started.isEmpty then
    (.done (r.started.reverse.take count), { r with started := (r.started.reverse.drop count).reverse }, s)
  else if !r.ahead.isEmpty then (.done (r.ahead.take count), { r with ahead := r.ahead.drop count }, s)
  else
    match fetch (max count fetchSize) s with
    | (.pending, s) => (.blocked, r, s)
    | (.failed cause, s) => (.failed cause, r, s)
    | (.bytes data, s) => (.done (data.take count), { r with ahead := data.drop count }, s)

end LineReader

end DualShell
