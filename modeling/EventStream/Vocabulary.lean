/-! The closed vocabulary of the wire and the log: kinds of system events, labels of stored
events and channels. -/

namespace EventStream

inductive Kind where
  | vaultReshared
  | vaultDeleted
  | policyCreated
  | policyDeleted
  deriving DecidableEq, Repr

namespace Kind

def all : List Kind := [vaultReshared, vaultDeleted, policyCreated, policyDeleted]

def label : Kind → String
  | vaultReshared => "vault_reshared"
  | vaultDeleted => "vault_deleted"
  | policyCreated => "policy_created"
  | policyDeleted => "policy_deleted"

def ofLabel? (s : String) : Option Kind := all.find? (·.label = s)

theorem ofLabel?_label (k : Kind) : ofLabel? k.label = some k := by
  cases k <;> decide +kernel

theorem label_of_ofLabel? {s : String} {k : Kind} (h : ofLabel? s = some k) : k.label = s := by
  simpa using List.find?_some h

def unknownMessage (s : String) : String := "unknown system event kind: " ++ s

end Kind

/-- The label under which an event is stored. Producers may log kinds that are not known
here; their label is kept as it is. -/
inductive Label where
  | known (kind : Kind)
  | unrecognized (text : String)
  deriving DecidableEq, Repr

namespace Label

def ofText (s : String) : Label :=
  match Kind.ofLabel? s with
  | some k => known k
  | none => unrecognized s

def text : Label → String
  | known k => k.label
  | unrecognized s => s

def kind? : Label → Option Kind
  | known k => some k
  | unrecognized _ => none

@[simp] theorem text_ofText (s : String) : (ofText s).text = s := by
  unfold ofText
  split
  · next h => exact Kind.label_of_ofLabel? h
  · rfl

end Label

/-- What a subscriber can ask for. -/
inductive Channel where
  | systemEvents
  deriving DecidableEq, Repr

namespace Channel

def all : List Channel := [systemEvents]

def name : Channel → String
  | systemEvents => "system_events"

def ofName? (s : String) : Option Channel := all.find? (·.name = s)

def unknownMessage (s : String) : String := "unknown channel: " ++ s

end Channel

end EventStream
