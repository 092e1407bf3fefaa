import KeyOrder.Memo
import KeyOrder.Proofs.Order.Enforcement

/-!
# Calls that share a memo

Calls that evaluate member lists take turns at one memo. A call takes two steps at most: it asks the
memo, and without an answer it stores what it has computed, unless another call has stored under the
same key in between. Two steps in a row are `SortOptions.evaluateWith`. A schedule says whose turn it
is, so **every interleaving is a schedule**.

What holds along every schedule (`Consistent`): each entry of the memo is what one of the calls
computes, under the key of that call, and each result is what its call gives without a memo. It
rests on the key: calls with the same key compute the same, if lists of one source with the same
kind and body are the same.
-/

namespace KeyOrder

namespace Memo

variable {memo : Memo} {key other : MemoKey} {entry present : MemoEntry}

/-- **An entry once stored is never replaced.** -/
theorem get?_insert_of_get? (h : memo.get? key = some present) :
    (memo.insert other entry).2.get? key = some present := by
  unfold insert
  split
  · exact h
  · have h' : List.lookup key memo.entries = some present := h
    simp [get?, List.lookup_append, h']

/-- An entry was there before, or it is the one that has been inserted. -/
theorem get?_insert_cases (h : (memo.insert other entry).2.get? key = some present) :
    memo.get? key = some present ∨ (key = other ∧ present = entry) := by
  unfold insert at h
  split at h
  · exact .inl h
  · simp only [get?, List.lookup_append] at h ⊢
    cases hfound : List.lookup key memo.entries with
    | some found => exact .inl (by simpa [hfound] using h)
    | none =>
        rw [hfound, Option.none_or, List.lookup_cons, List.lookup_nil] at h
        split at h
        · rename_i heq
          exact .inr ⟨eq_of_beq heq, (Option.some.inj h).symm⟩
        · cases h

end Memo

/-- The evaluation of a member list of a source that is asked for. -/
structure EvaluationCall where
  options : SortOptions
  source : Text
  list : MemberList
deriving DecidableEq

namespace EvaluationCall

/-- What the result of a call is remembered under. -/
def key (call : EvaluationCall) : MemoKey := call.options.memoKey call.source call.list

/-- What a call gives without a memo. -/
def direct (call : EvaluationCall) : Except EvaluationError Evaluation :=
  call.options.evaluate call.source call.list

/-- What a call computes. -/
def computed (call : EvaluationCall) : Evaluation :=
  call.options.computeEvaluation call.source call.list

/-- Whether the ranges of the list fit the source. -/
def Fits (call : EvaluationCall) : Prop := call.list.checkRanges call.source = .ok ()

/-- Whether lists of one source with the same kind and body are the same. -/
def Agree (calls : List EvaluationCall) : Prop :=
  ∀ a ∈ calls, ∀ b ∈ calls, a.source = b.source → a.list.kind = b.list.kind →
    a.list.bodyStart = b.list.bodyStart → a.list.bodyStop = b.list.bodyStop → a.list = b.list

instance (calls : List EvaluationCall) : Decidable (Agree calls) :=
  inferInstanceAs (Decidable (∀ a ∈ calls, ∀ b ∈ calls, _))

variable {calls : List EvaluationCall} {call other : EvaluationCall} {memo : Memo}

/-- **The key captures all that a call depends on.** -/
theorem Agree.eq_of_key_eq (h : Agree calls) (hcall : call ∈ calls) (hother : other ∈ calls)
    (hkey : other.key = call.key) : other = call := by
  simp only [key, SortOptions.memoKey, MemoKey.mk.injEq] at hkey
  obtain ⟨hsource, hoptions, hkind, hstart, hstop⟩ := hkey
  have hlist := h other hother call hcall hsource hkind hstart hstop
  cases call
  cases other
  simp_all

theorem Fits.direct (h : call.Fits) : call.direct = .ok call.computed :=
  SortOptions.evaluate_of_checkRanges h

theorem direct_of_checkRanges {error : EvaluationError}
    (h : call.list.checkRanges call.source = .error error) : call.direct = .error error := by
  rw [EvaluationCall.direct, SortOptions.evaluate, h]
  rfl

/-- Without a memo no entry is found to be for another list. -/
theorem direct_ne_staleEntry (call : EvaluationCall) (found expected : Nat) :
    call.direct ≠ .error (.staleEntry found expected) := by
  cases hcheck : call.list.checkRanges call.source with
  | ok => simp [Fits.direct hcheck]
  | error error =>
      rw [direct_of_checkRanges hcheck]
      obtain ⟨start, stop, length, rfl⟩ := SortOptions.exists_range_of_checkRanges hcheck
      exact nofun

/-- Entries that are what one of the calls computes, each under the key of that call. -/
def Computed (calls : List EvaluationCall) (memo : Memo) : Prop :=
  ∀ key entry, memo.get? key = some entry →
    ∃ call ∈ calls, call.key = key ∧ call.computed = entry.evaluation

/-- Whether a result is right: it is what the call gives without a memo, and a result that is no
error is the entry that stands in the memo. -/
structure Answered (call : EvaluationCall) (memo : Memo)
    (result : Except EvaluationError MemoEntry) : Prop where
  direct : result.map MemoEntry.evaluation = call.direct
  stored : ∀ entry, result = .ok entry → memo.get? call.key = some entry

theorem Computed.evaluation_eq (h : Computed calls memo) (hagree : Agree calls)
    (hcall : call ∈ calls) {entry : MemoEntry} (hget : memo.get? call.key = some entry) :
    entry.evaluation = call.computed := by
  obtain ⟨other, hother, hkey, hcomputed⟩ := h call.key entry hget
  rw [← hcomputed, hagree.eq_of_key_eq hcall hother hkey]

/-- The size of a plan is that of its list, so an entry for the list passes the size check. -/
theorem checkSize_of_evaluation_eq {entry : MemoEntry} (h : entry.evaluation = call.computed) :
    entry.checkSize call.list = .ok entry := by
  have hsize : (call.options.plan call.list.members).size = call.list.size := by
    rw [Plan.size, (call.options.plan_perm call.list.members).length_eq, List.length_range]
    rfl
  have hplan : entry.evaluation.plan = call.options.plan call.list.members := by rw [h]; rfl
  rw [MemoEntry.checkSize, hplan, if_pos hsize]

/-- **A memo gives right answers.** -/
theorem Computed.ask (h : Computed calls memo) (hagree : Agree calls) (hcall : call ∈ calls)
    {result : Except EvaluationError MemoEntry}
    (hask : call.options.ask call.source call.list memo = some result) :
    call.Answered memo result := by
  unfold SortOptions.ask at hask
  split at hask
  · rename_i error hcheck
    cases hask
    exact ⟨(direct_of_checkRanges hcheck).symm, nofun⟩
  · rename_i hcheck
    obtain ⟨entry, hget, rfl⟩ := Option.map_eq_some_iff.mp hask
    have hevaluation := h.evaluation_eq hagree hcall hget
    rw [checkSize_of_evaluation_eq hevaluation]
    refine ⟨?_, ?_⟩
    · rw [Fits.direct hcheck, ← hevaluation]
      rfl
    · rintro _ ⟨rfl⟩
      exact hget

/-- A call gets no answer only if its list fits the source. -/
theorem fits_of_ask (hask : call.options.ask call.source call.list memo = none) : call.Fits := by
  unfold SortOptions.ask at hask
  split at hask
  · cases hask
  · assumption

/-- **Storing keeps the memo right, and what stands there then is a right answer**, whether another
call was first or not. -/
theorem Computed.store (h : Computed calls memo) (hagree : Agree calls) (hcall : call ∈ calls)
    (hfits : call.Fits) (origin : Nat) :
    Computed calls (call.options.store origin call.source call.list memo).2
      ∧ call.Answered (call.options.store origin call.source call.list memo).2
        (.ok (call.options.store origin call.source call.list memo).1) := by
  have hcomputed : Computed calls (call.options.store origin call.source call.list memo).2 := by
    intro key entry hget
    rcases Memo.get?_insert_cases hget with hold | ⟨rfl, rfl⟩
    · exact h key entry hold
    · exact ⟨call, hcall, rfl, rfl⟩
  have hself : (call.options.store origin call.source call.list memo).2.get? call.key
      = some (call.options.store origin call.source call.list memo).1 :=
    Memo.get?_insert_self memo call.key _
  refine ⟨hcomputed, ?_, ?_⟩
  · rw [hfits.direct, ← hcomputed.evaluation_eq hagree hcall hself]
    rfl
  · rintro _ ⟨rfl⟩
    exact hself

end EvaluationCall

/-! ## Steps -/

/-- How far a call has come. -/
inductive CallProgress where
  /-- It has not asked the memo yet. -/
  | waiting
  /-- It got no answer and has still to store what it computes. -/
  | computing
  | returned (result : Except EvaluationError MemoEntry)

/-- A call with how far it has come. -/
structure Task where
  call : EvaluationCall
  progress : CallProgress := .waiting

namespace Task

/-- The next step of a call, the one with number `origin`, on a memo. -/
def advance (origin : Nat) (task : Task) (memo : Memo) : Task × Memo :=
  match task.progress with
  | .waiting =>
    match task.call.options.ask task.call.source task.call.list memo with
    | some result => (⟨task.call, .returned result⟩, memo)
    | none => (⟨task.call, .computing⟩, memo)
  | .computing =>
    let (entry, memo) := task.call.options.store origin task.call.source task.call.list memo
    (⟨task.call, .returned (.ok entry)⟩, memo)
  | .returned _ => (task, memo)

/-- The result of a call that has returned. -/
def result? (task : Task) : Option (Except EvaluationError MemoEntry) :=
  match task.progress with
  | .returned result => some result
  | _ => none

/-- The steps that a call has left at most. -/
def stepsLeft (task : Task) : Nat :=
  match task.progress with
  | .waiting => 2
  | .computing => 1
  | .returned _ => 0

/-- What is known of a call on the way. -/
structure Sound (task : Task) (memo : Memo) : Prop where
  computing : task.progress = .computing → task.call.Fits
  returned : ∀ result, task.progress = .returned result → task.call.Answered memo result

variable {task : Task} {memo memo' : Memo}

theorem isSome_result?_of_stepsLeft (h : task.stepsLeft = 0) : task.result?.isSome := by
  unfold stepsLeft at h
  unfold result?
  split at h
  · cases h
  · cases h
  · rename_i hprogress
    rw [hprogress]
    rfl

theorem Sound.answered {result : Except EvaluationError MemoEntry} (h : task.Sound memo)
    (hresult : task.result? = some result) : task.call.Answered memo result := by
  unfold result? at hresult
  split at hresult
  · rename_i progress hprogress
    cases hresult
    exact h.returned result hprogress
  · cases hresult

/-- What is known of a call stays true when entries are added to the memo. -/
theorem Sound.mono (h : task.Sound memo)
    (hmono : ∀ key entry, memo.get? key = some entry → memo'.get? key = some entry) :
    task.Sound memo' :=
  ⟨h.computing, fun result hresult => ⟨(h.returned result hresult).direct, fun entry hentry =>
    hmono _ _ ((h.returned result hresult).stored entry hentry)⟩⟩

theorem call_advance (origin : Nat) (task : Task) (memo : Memo) :
    (task.advance origin memo).1.call = task.call := by
  unfold advance
  split
  · split <;> rfl
  · rfl
  · rfl

theorem stepsLeft_advance (origin : Nat) (task : Task) (memo : Memo) :
    (task.advance origin memo).1.stepsLeft ≤ task.stepsLeft - 1 := by
  unfold advance
  split
  · rename_i hprogress
    split <;> simp [stepsLeft, hprogress]
  · rename_i hprogress
    simp [stepsLeft, hprogress]
  · rename_i hprogress
    simp [stepsLeft, hprogress]

/-- **Two steps in a row are one evaluation** with the help of the memo. -/
theorem advance_advance (origin : Nat) (call : EvaluationCall) (memo : Memo) :
    (advance origin { call } memo).1.advance origin (advance origin { call } memo).2
      = (⟨call, .returned (call.options.evaluateWith origin call.source call.list memo).1⟩,
        (call.options.evaluateWith origin call.source call.list memo).2) := by
  cases hask : call.options.ask call.source call.list memo with
  | some result => simp only [advance, SortOptions.evaluateWith, hask]
  | none => simp only [advance, SortOptions.evaluateWith, hask]

/-- A step keeps every entry of the memo. -/
theorem get?_advance (origin : Nat) (task : Task) {key : MemoKey} {entry : MemoEntry}
    (h : memo.get? key = some entry) :
    (task.advance origin memo).2.get? key = some entry := by
  unfold advance
  split
  · split <;> exact h
  · exact Memo.get?_insert_of_get? h
  · exact h

/-- **One step of a call** keeps the memo right, and what is known of the call. -/
theorem advance_sound (origin : Nat) {calls : List EvaluationCall}
    (hmemo : EvaluationCall.Computed calls memo) (hagree : EvaluationCall.Agree calls)
    (hcall : task.call ∈ calls) (h : task.Sound memo) :
    EvaluationCall.Computed calls (task.advance origin memo).2
      ∧ (task.advance origin memo).1.Sound (task.advance origin memo).2 := by
  unfold advance
  split
  · split
    · rename_i result hask
      refine ⟨hmemo, nofun, ?_⟩
      rintro _ ⟨rfl⟩
      exact hmemo.ask hagree hcall hask
    · rename_i hask
      exact ⟨hmemo, fun _ => EvaluationCall.fits_of_ask hask, nofun⟩
  · rename_i hprogress
    obtain ⟨hcomputed, hanswered⟩ := hmemo.store hagree hcall (h.computing hprogress) origin
    refine ⟨hcomputed, nofun, ?_⟩
    rintro _ ⟨rfl⟩
    exact hanswered
  · exact ⟨hmemo, h⟩

end Task

/-- A memo and the calls that share it. -/
structure SharedMemo where
  memo : Memo
  tasks : List Task

namespace SharedMemo

/-- The empty memo and calls that have not begun. -/
def start (calls : List EvaluationCall) : SharedMemo :=
  ⟨.empty, calls.map fun call => { call }⟩

/-- The call with an index takes its next step. -/
def step (state : SharedMemo) (index : Nat) : SharedMemo :=
  match state.tasks[index]? with
  | none => state
  | some task =>
    let (task, memo) := task.advance index state.memo
    ⟨memo, state.tasks.set index task⟩

/-- What calls come to that take their steps in the order of a schedule. -/
def run (calls : List EvaluationCall) (schedule : List Nat) : SharedMemo :=
  schedule.foldl step (start calls)

/-- The result of the call with an index, if it has returned. -/
def result? (state : SharedMemo) (index : Nat) : Option (Except EvaluationError MemoEntry) :=
  state.tasks[index]?.bind Task.result?

/-- What holds of a memo and its calls at every time. -/
structure Consistent (calls : List EvaluationCall) (state : SharedMemo) : Prop where
  calls_eq : state.tasks.map Task.call = calls
  computed : EvaluationCall.Computed calls state.memo
  sound : ∀ task ∈ state.tasks, task.Sound state.memo

variable {calls : List EvaluationCall} {state : SharedMemo} {schedule : List Nat}
  {key : MemoKey} {entry : MemoEntry}

theorem consistent_start (calls : List EvaluationCall) : Consistent calls (start calls) := by
  refine ⟨?_, ?_, ?_⟩
  · simp [start, Function.comp_def]
  · intro key entry hget
    simp [start, Memo.empty, Memo.get?] at hget
  · intro task htask
    obtain ⟨call, -, rfl⟩ := List.mem_map.mp htask
    constructor
    · intro hcomputing
      cases hcomputing
    · intro result hreturned
      cases hreturned

/-- **One step keeps a memo and its calls consistent.** -/
theorem Consistent.step (h : Consistent calls state) (hagree : EvaluationCall.Agree calls)
    (index : Nat) : Consistent calls (state.step index) := by
  unfold SharedMemo.step
  split
  · exact h
  · rename_i task htask
    have hmem := List.mem_of_getElem? htask
    have hcall : task.call ∈ calls := h.calls_eq ▸ List.mem_map_of_mem hmem
    obtain ⟨hcomputed, hsound⟩ :=
      Task.advance_sound index h.computed hagree hcall (h.sound task hmem)
    refine ⟨?_, hcomputed, fun other hother => ?_⟩
    · rw [List.map_set, Task.call_advance, ← h.calls_eq]
      obtain ⟨hlt, rfl⟩ := List.getElem?_eq_some_iff.mp htask
      rw [← List.map_set, List.set_getElem_self]
    · rcases List.mem_or_eq_of_mem_set hother with hold | rfl
      · exact (h.sound other hold).mono fun _ _ => Task.get?_advance index task
      · exact hsound

theorem Consistent.foldl (h : Consistent calls state) (hagree : EvaluationCall.Agree calls) :
    Consistent calls (schedule.foldl SharedMemo.step state) := by
  induction schedule generalizing state with
  | nil => exact h
  | cons index rest ih => exact ih (h.step hagree index)

theorem get?_step (index : Nat) (h : state.memo.get? key = some entry) :
    (state.step index).memo.get? key = some entry := by
  unfold step
  split
  · exact h
  · exact Task.get?_advance index _ h

theorem get?_foldl (h : state.memo.get? key = some entry) :
    (schedule.foldl step state).memo.get? key = some entry := by
  induction schedule generalizing state with
  | nil => exact h
  | cons index rest ih => exact ih (get?_step index h)

/-- **Each turn of a call brings it a step closer to its result**, and other turns do not take it
back. -/
theorem stepsLeft_foldl {index : Nat} {task : Task} (h : state.tasks[index]? = some task) :
    ∃ later, (schedule.foldl step state).tasks[index]? = some later
      ∧ later.stepsLeft ≤ task.stepsLeft - schedule.count index := by
  induction schedule generalizing state task with
  | nil => exact ⟨task, h, Nat.le_refl _⟩
  | cons turn rest ih =>
      rw [List.foldl_cons, List.count_cons]
      by_cases hturn : turn = index
      · subst hturn
        have hlt : turn < state.tasks.length := (List.getElem?_eq_some_iff.mp h).1
        have hnext : (state.step turn).tasks[turn]? = some (task.advance turn state.memo).1 := by
          simp only [step, h]
          exact List.getElem?_set_self hlt
        obtain ⟨later, hlater, hle⟩ := ih hnext
        refine ⟨later, hlater, ?_⟩
        have hless := Task.stepsLeft_advance turn task state.memo
        simp only [beq_self_eq_true, if_true]
        omega
      · have hnext : (state.step turn).tasks[index]? = some task := by
          unfold step
          split
          · exact h
          · simpa [List.getElem?_set_ne hturn] using h
        obtain ⟨later, hlater, hle⟩ := ih hnext
        refine ⟨later, hlater, ?_⟩
        simpa [hturn] using hle

/-- **A shared memo never changes a result.** Let calls share a memo that is empty at first, such
that lists of one source with the same kind and body are the same, and let them take their steps in
any order. A call that had two turns has returned. A call that has returned gives what it gives
without a memo, never the error of an entry for another list, and if that is an evaluation it is the
entry that stands in the memo under its key. No entry of the memo is ever replaced. -/
theorem run_never_changes_result (hagree : EvaluationCall.Agree calls) (schedule : List Nat) :
    (∀ index call, calls[index]? = some call →
      (2 ≤ schedule.count index → ((run calls schedule).result? index).isSome)
        ∧ ∀ result, (run calls schedule).result? index = some result →
          result.map MemoEntry.evaluation = call.options.evaluate call.source call.list
            ∧ (∀ found expected, result ≠ .error (.staleEntry found expected))
            ∧ ∀ entry, result = .ok entry →
              (run calls schedule).memo.get? (call.options.memoKey call.source call.list)
                = some entry)
      ∧ ∀ before behind, schedule = before ++ behind → ∀ key entry,
        (run calls before).memo.get? key = some entry →
          (run calls schedule).memo.get? key = some entry := by
  have hconsistent : Consistent calls (run calls schedule) := (consistent_start calls).foldl hagree
  refine ⟨fun index call hcall => ⟨fun hturns => ?_, fun result hresult => ?_⟩, ?_⟩
  · have hstart : (start calls).tasks[index]? = some { call } := by simp [start, hcall]
    obtain ⟨later, hlater, hle⟩ := @stepsLeft_foldl _ schedule _ _ hstart
    have hdone : later.stepsLeft = 0 := by
      have htwo : Task.stepsLeft { call } = 2 := rfl
      omega
    have hlater : (run calls schedule).tasks[index]? = some later := hlater
    rw [result?, hlater]
    exact Task.isSome_result?_of_stepsLeft hdone
  · obtain ⟨task, htask, hreturned⟩ := Option.bind_eq_some_iff.mp hresult
    have hsame : task.call = call := by
      rw [← hconsistent.calls_eq, List.getElem?_map, htask] at hcall
      exact Option.some.inj hcall
    have hanswered := (hconsistent.sound task (List.mem_of_getElem? htask)).answered hreturned
    rw [hsame] at hanswered
    refine ⟨hanswered.direct, fun found expected hstale => ?_, hanswered.stored⟩
    have hdirect := hanswered.direct
    rw [hstale] at hdirect
    exact call.direct_ne_staleEntry found expected hdirect.symm
  · rintro before behind rfl key entry hget
    rw [run, List.foldl_append]
    exact get?_foldl hget

/-- Two calls for the same list, and one for it under other options. -/
def race : List EvaluationCall :=
  [⟨{}, SortOptions.orderedSource, SortOptions.ordered⟩,
    ⟨{}, SortOptions.orderedSource, SortOptions.ordered⟩,
    ⟨{ requiredFirst := true }, SortOptions.orderedSource, SortOptions.ordered⟩]

/-- The first two calls both miss, and the second stores first: they give the same entry. -/
theorem run_never_changes_result_race :
    EvaluationCall.Agree race ∧ ∃ entry, (run race [0, 1, 2, 1, 0, 2]).result? 0 = some (.ok entry)
      ∧ (run race [0, 1, 2, 1, 0, 2]).result? 1 = some (.ok entry)
      ∧ SortOptions.evaluate {} SortOptions.orderedSource SortOptions.ordered
        = .ok entry.evaluation := by
  have hagree : EvaluationCall.Agree race := by decide
  have hresults := (run_never_changes_result hagree [0, 1, 2, 1, 0, 2]).1
  have hdirect : SortOptions.evaluate {} SortOptions.orderedSource SortOptions.ordered
      = .ok (SortOptions.computeEvaluation {} SortOptions.orderedSource SortOptions.ordered) :=
    SortOptions.evaluate_of_checkRanges rfl
  have hreturned : ∀ index,
      race[index]? = some ⟨{}, SortOptions.orderedSource, SortOptions.ordered⟩ →
      2 ≤ [0, 1, 2, 1, 0, 2].count index → ∃ entry,
      (run race [0, 1, 2, 1, 0, 2]).result? index = some (.ok entry)
        ∧ (run race [0, 1, 2, 1, 0, 2]).memo.get?
          (SortOptions.memoKey {} SortOptions.orderedSource SortOptions.ordered) = some entry
        ∧ SortOptions.evaluate {} SortOptions.orderedSource SortOptions.ordered
          = .ok entry.evaluation := by
    intro index hcall htwice
    obtain ⟨hturns, hresult⟩ := hresults index _ hcall
    obtain ⟨result, hsome⟩ := Option.isSome_iff_exists.mp (hturns htwice)
    obtain ⟨hmap, -, hstored⟩ := hresult result hsome
    cases result with
    | error error => rw [hdirect] at hmap; cases hmap
    | ok entry => exact ⟨entry, hsome, hstored entry rfl, hmap.symm⟩
  obtain ⟨first, hfirst, hmemo, hevaluation⟩ := hreturned 0 rfl (by decide)
  obtain ⟨second, hsecond, hmemo', -⟩ := hreturned 1 rfl (by decide)
  obtain rfl : first = second := Option.some.inj (hmemo.symm.trans hmemo')
  exact ⟨hagree, first, hfirst, hsecond, hevaluation⟩

end SharedMemo

end KeyOrder
