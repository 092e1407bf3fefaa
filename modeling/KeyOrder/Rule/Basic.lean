import KeyOrder.Edit
import KeyOrder.Evaluation

/-!
# Rules

A rule looks at the member lists of some kinds, under sort options of its own, and reports the
members that are out of order. The first report of an unsorted list is about the whole list and
carries the edit that sorts it; one report for each misplaced member follows.
-/

namespace KeyOrder

/-- How grave a report is. -/
inductive Severity where
  | error
  | warning
deriving DecidableEq, Repr

/-- The word for a severity. -/
def Severity.word : Severity → String
  | .error => "error"
  | .warning => "warning"

/-- The rules there are. -/
inductive RuleId where
  | interface
  | enumeration
  | stringEnumeration
deriving DecidableEq, Repr

namespace RuleId

/-- Every rule, in the order in which rules run. -/
def all : List RuleId := [.interface, .enumeration, .stringEnumeration]

/-- The name of a rule in settings and reports. -/
def name : RuleId → String
  | .interface => "interface"
  | .enumeration => "enum"
  | .stringEnumeration => "string-enum"

/-- The rule with a given name. -/
def ofName? (name : String) : Option RuleId :=
  all.find? (·.name == name)

/-- The short code of a rule. -/
def code : RuleId → String
  | .interface => "SK001"
  | .enumeration => "SK002"
  | .stringEnumeration => "SK003"

/-- What a rule is for. -/
def description : RuleId → String
  | .interface => "require interface keys to be sorted"
  | .enumeration => "require enum members to be sorted"
  | .stringEnumeration => "require string enum members to be sorted"

/-- The rule to use in place of a deprecated one. -/
def replacement? : RuleId → Option RuleId
  | .stringEnumeration => some .enumeration
  | _ => none

/-- Whether a rule looks at a member list. -/
def accepts : RuleId → MemberList → Bool
  | .interface, list => list.kind = .interface || list.kind = .typeLiteral
  | .enumeration, list => list.kind = .enumeration
  | .stringEnumeration, list => list.kind = .enumeration && list.stringValued

/-- What the members of a list are called. -/
def memberNoun : RuleId → String
  | .interface => "interface keys"
  | _ => "enum members"

/-- What one member is called where members are counted. -/
def unitNoun : RuleId → String
  | .interface => "key"
  | _ => "member"

/-- Words that end every message of a deprecated rule. -/
def notice : RuleId → String
  | .stringEnumeration => " DEPRECATED: use the 'enum' rule instead."
  | _ => ""

/-- The message about a misplaced member. -/
def memberMessage (rule : RuleId) (options : SortOptions) (name : String) (placement : Placement) :
    String :=
  "Expected " ++ rule.memberNoun ++ " to be in " ++ options.direction.keyword ++ "ending " ++
    options.modifiersLabel ++ "order. '" ++ name ++ "' should be " ++ placement.render ++
    ". Run autofix to sort entire body." ++ rule.notice

/-- The message about a whole list with a number of misplaced members. -/
def parentMessage (rule : RuleId) (count : Nat) : String :=
  "Found " ++ toString count ++ " " ++ rule.unitNoun ++ (if count = 1 then "" else "s") ++
    " out of order." ++ rule.notice

end RuleId

/-- What a report is about. -/
inductive MessageId where
  /-- A misplaced member. -/
  | invalidOrderBody
  /-- A list with misplaced members. -/
  | invalidOrderParent
deriving DecidableEq, Repr

/-- The name of a message id. -/
def MessageId.name : MessageId → String
  | .invalidOrderBody => "invalidOrderBody"
  | .invalidOrderParent => "invalidOrderParent"

/-- The message id with a given name. -/
def MessageId.ofName? : String → Option MessageId
  | "invalidOrderBody" => some .invalidOrderBody
  | "invalidOrderParent" => some .invalidOrderParent
  | _ => none

/-- One finding of a rule. -/
structure Report where
  span : Span
  messageId : MessageId
  message : String
  fix : Option Edit
deriving DecidableEq, Repr

/-- Why a report cannot be made. -/
inductive ReportError where
  | missingLocation (rule : String)
  | missingMessage (rule : String)
deriving DecidableEq, Repr

/-- The wording of a report error. -/
def ReportError.message : ReportError → String
  | .missingLocation rule => "rule '" ++ rule ++ "' created a report without a node location"
  | .missingMessage rule => "rule '" ++ rule ++ "' created a report without a problem message"

/-- A report of which the place or the message may still be open. -/
structure ReportDraft where
  location : Option Span
  messageId : Option MessageId

/-- Completes a draft; a missing place is complained about before a missing message. -/
def ReportDraft.complete (draft : ReportDraft) (rule : RuleId) (message : String)
    (fix : Option Edit) : Except ReportError Report :=
  match draft.location, draft.messageId with
  | none, _ => .error (.missingLocation rule.name)
  | some _, none => .error (.missingMessage rule.name)
  | some span, some messageId => .ok ⟨span, messageId, message, fix⟩

/-- A rule that is switched on. -/
structure Rule where
  id : RuleId
  severity : Severity
  options : SortOptions
deriving DecidableEq, Repr

namespace Rule

/-- The reports on a list with misplaced members. -/
def reportsOf (rule : Rule) (list : MemberList) (evaluation : Evaluation) : List Report :=
  let fix := evaluation.replacement.map fun body =>
    { start := list.bodyStart, stop := list.bodyStop, replacement := body
      description := some ("sort " ++ rule.id.name ++ " body") : Edit }
  let parent : Report :=
    ⟨list.parent, .invalidOrderParent, rule.id.parentMessage evaluation.selection.count, fix⟩
  let members := evaluation.violations.filterMap fun violation =>
    list.members[violation.index]?.map fun member =>
      { span := member.declaration, messageId := .invalidOrderBody
        message := rule.id.memberMessage rule.options violation.name violation.placement
        fix := none : Report }
  parent :: members

/-- Checks one member list. A list of fewer than two members is never out of order. -/
def check (rule : Rule) (source : Text) (list : MemberList) :
    Except EvaluationError (List Report) := do
  if list.size < 2 || !rule.id.accepts list then
    return []
  let evaluation ← rule.options.evaluate source list
  if evaluation.selection.count = 0 then
    return []
  return rule.reportsOf list evaluation

end Rule

end KeyOrder
