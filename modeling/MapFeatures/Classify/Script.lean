import MapFeatures.Classify.Context
/-!
# Script — classifiers as programs of calls

A script makes a call, goes on according to the answer, and is done in the end.  Running it answers its calls one after
the other.  A classifier gives a script for every element; it may keep something in mind from one element to the next.
-/
namespace MapFeatures

inductive Script (α : Type)
  | done (result : α)
  | ask (call : Call) (next : call.Answer → Script α)

namespace Script

def bind {α β : Type} (s : Script α) (f : α → Script β) : Script β :=
  match s with
  | done result => f result
  | ask call next => ask call fun a => (next a).bind f

instance : Monad Script where
  pure := done
  bind := bind

def call (c : Call) : Script c.Answer := ask c done

/-- The result of a script, and the context after its calls. -/
def run {α : Type} (env : Surroundings) : Script α → Context → α × Context
  | done result, c => (result, c)
  | ask call next, c =>
    let (a, c) := c.answer env call
    run env (next a) c

end Script

/-- What decides which elements become features, and which. -/
structure Classifier (σ : Type) where
  /-- What it has in mind at first. -/
  fresh : σ
  /-- Nodes that have none of these keys are not classified. -/
  significantKeys : List String
  /-- Whether relations with these tags are recorded. -/
  scansRelation : Tags → Bool
  /-- What is done with an element of this kind. -/
  classify : ElementKind → σ → Script (Except ProcessingError Unit × σ)

/-- Multi-polygons and boundaries are areas. -/
def isAreaRelation (tags : Tags) : Bool :=
  match tags.get? "type" with
  | some "multipolygon" => true
  | some "boundary" => true
  | _ => false

end MapFeatures
