import Formula.Session.Input
import Formula.Event

/-!
# Consoles

The two ends of a session: the input that is still unread, and a record of all that was shown,
written and noted. A read or write that fails is in the record too, with its reason and without
the text.
-/

namespace Formula

/-- Where a session writes: its output, and what is wrong. -/
inductive Stream where
  | out
  | err
deriving DecidableEq, Repr

inductive Entry where
  | prompt (text : String)
  | written (stream : Stream) (text : String)
  | event (event : Event)
  | failed (error : StreamError)

structure Console where
  unread : List Input
  /-- Why a write to a stream fails, by the number of writes tried before it. -/
  failure : Stream → Nat → Option String
  writes : Nat
  /-- Newest first. -/
  record : List Entry

namespace Console

/-- A console with input to read and nothing written yet. -/
def ofInput (unread : List Input) (failure : Stream → Nat → Option String) : Console :=
  ⟨unread, failure, 0, []⟩

/-- The record in the order in which it was made. -/
def entries (console : Console) : List Entry :=
  console.record.reverse

/-- All that was written to a stream. -/
def text (console : Console) (stream : Stream) : String :=
  String.join (console.entries.filterMap fun entry ↦ match entry with
    | .written target text => if target = stream then some text else none
    | _ => none)

def prompts (console : Console) : List String :=
  console.entries.filterMap fun entry ↦ match entry with
    | .prompt text => some text
    | _ => none

def events (console : Console) : List Event :=
  console.entries.filterMap fun entry ↦ match entry with
    | .event event => some event
    | _ => none

/-- The console with a new record; input and failures go on where they were. -/
def clear (console : Console) : Console :=
  { console with record := [] }

/-- The console with more entries, the oldest of them first. -/
def add (console : Console) (entries : List Entry) : Console :=
  { console with record := entries.reverse ++ console.record }

@[simp] theorem unread_add (console : Console) (entries : List Entry) :
    (console.add entries).unread = console.unread := rfl

@[simp] theorem entries_add (console : Console) (added : List Entry) :
    (console.add added).entries = console.entries ++ added := by
  simp [add, entries]

end Console

end Formula
