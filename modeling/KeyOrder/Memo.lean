import KeyOrder.Evaluation

/-!
# Remembered evaluations

A memo holds evaluations under the source text, the options, the kind of the list and its body
range. **An entry is written once and never replaced**: inserting under a key that is taken gives
back the entry that is there. Looking up and inserting are separate steps, so that several
evaluations can share one memo in any interleaving.
-/

namespace KeyOrder

/-- What an evaluation is remembered under. -/
structure MemoKey where
  source : Text
  options : SortOptions
  kind : ListKind
  bodyStart : Nat
  bodyStop : Nat
deriving DecidableEq, Repr

/-- An evaluation together with the number of the step that computed it, which tells it apart from
an equal one computed elsewhere. -/
structure MemoEntry where
  origin : Nat
  evaluation : Evaluation
deriving DecidableEq, Repr

/-- A write-once table of evaluations. -/
structure Memo where
  entries : List (MemoKey × MemoEntry) := []

namespace Memo

/-- The memo without entries. -/
def empty : Memo := {}

/-- Number of entries. -/
def size (memo : Memo) : Nat := memo.entries.length

/-- The entry under a key. -/
def get? (memo : Memo) (key : MemoKey) : Option MemoEntry :=
  memo.entries.lookup key

/-- Stores an entry unless its key is taken, and gives the entry that now stands under the key. -/
def insert (memo : Memo) (key : MemoKey) (entry : MemoEntry) : MemoEntry × Memo :=
  match memo.get? key with
  | some present => (present, memo)
  | none => (entry, ⟨memo.entries ++ [(key, entry)]⟩)

theorem get?_insert_self (memo : Memo) (key : MemoKey) (entry : MemoEntry) :
    (memo.insert key entry).2.get? key = some (memo.insert key entry).1 := by
  unfold insert
  split
  next present h => exact h
  next h =>
    have h' : List.lookup key memo.entries = none := h
    simp [get?, List.lookup_append, h']

end Memo

/-- The key of a member list of a source. -/
def SortOptions.memoKey (options : SortOptions) (source : Text) (list : MemberList) : MemoKey :=
  ⟨source, options, list.kind, list.bodyStart, list.bodyStop⟩

/-- A remembered evaluation counts only for a list with as many members. -/
def MemoEntry.checkSize (entry : MemoEntry) (list : MemberList) :
    Except EvaluationError MemoEntry :=
  if entry.evaluation.plan.size = list.size then .ok entry
  else .error (.staleEntry entry.evaluation.plan.size list.size)

namespace SortOptions

/-- Asks a memo for the evaluation of a member list, after its ranges have been checked. There is no
answer if the evaluation has to be computed. -/
def ask (options : SortOptions) (source : Text) (list : MemberList) (memo : Memo) :
    Option (Except EvaluationError MemoEntry) :=
  match list.checkRanges source with
  | .error error => some (.error error)
  | .ok () => (memo.get? (options.memoKey source list)).map fun entry => entry.checkSize list

/-- Computes the evaluation of a member list, as the step with number `origin`, and stores it unless
its key is taken by now. -/
def store (options : SortOptions) (origin : Nat) (source : Text) (list : MemberList)
    (memo : Memo) : MemoEntry × Memo :=
  memo.insert (options.memoKey source list) ⟨origin, options.computeEvaluation source list⟩

/-- Evaluates a member list with the help of a memo, as the step with number `origin`: the memo is
asked, and only without an answer the evaluation is computed and stored. -/
def evaluateWith (options : SortOptions) (origin : Nat) (source : Text) (list : MemberList)
    (memo : Memo) : Except EvaluationError MemoEntry × Memo :=
  match options.ask source list memo with
  | some result => (result, memo)
  | none =>
    let (entry, memo) := options.store origin source list memo
    (.ok entry, memo)

end SortOptions

end KeyOrder
