import Custody.Error

/-! The attributes of the static checker, their written names and how a name is
read. A name is written with the namespace before it; it is read with or
without. -/

namespace Custody

/-- Attributes, in the order in which they sort. -/
inductive Attribute where
  | noSideEffect
  | noSideEffectWhenConst
  | deepConst
  | deepConstWhenParams
  | mayExtendToThis
  | nakedStruct
  | awaitable
  | noAwait
  | nonDeterministic
  deriving DecidableEq, Repr

namespace Attribute

/-- Every attribute, in order. -/
def all : List Attribute :=
  [.noSideEffect, .noSideEffectWhenConst, .deepConst, .deepConstWhenParams, .mayExtendToThis,
   .nakedStruct, .awaitable, .noAwait, .nonDeterministic]

def name : Attribute → String
  | .noSideEffect => "no_side_effect"
  | .noSideEffectWhenConst => "no_side_effect_when_const"
  | .deepConst => "deep_const"
  | .deepConstWhenParams => "deep_const_when_params"
  | .mayExtendToThis => "may_extend_to_this"
  | .nakedStruct => "naked_struct"
  | .awaitable => "awaitable"
  | .noAwait => "no_await"
  | .nonDeterministic => "non_deterministic"

def label : Attribute → String
  | .noSideEffect => "NoSideEffect"
  | .noSideEffectWhenConst => "NoSideEffectWhenConst"
  | .deepConst => "DeepConst"
  | .deepConstWhenParams => "DeepConstWhenParams"
  | .mayExtendToThis => "MayExtendToThis"
  | .nakedStruct => "NakedStruct"
  | .awaitable => "Awaitable"
  | .noAwait => "NoAwait"
  | .nonDeterministic => "NonDeterministic"

/-- The namespace of every written name. -/
def path : String := "safememory::"

def render (a : Attribute) : String := path ++ a.name

/-- Whether code that must not have side effects may call a function so marked. -/
def isPure (a : Attribute) : Bool := a = .noSideEffect || a = .noSideEffectWhenConst

/-- The text without one leading namespace, if it has one. -/
def bare (s : String) : String :=
  if path.toList.isPrefixOf s.toList then String.ofList (s.toList.drop path.length) else s

def parse (s : String) : Except AttributeRefusal Attribute :=
  match all.find? fun a => a.name = bare s with
  | some a => .ok a
  | none => .error ⟨s⟩

/-- Position in the order of `all`. -/
def rank (a : Attribute) : Nat := all.idxOf a

/-- The attributes named, in order; the first unknown name is the error. -/
def parseSorted (names : List String) : Except AttributeRefusal (List Attribute) := do
  let attributes ← names.mapM parse
  return attributes.mergeSort fun a b => decide (a.rank ≤ b.rank)

end Attribute

end Custody
