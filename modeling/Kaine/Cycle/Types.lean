import Kaine.Bus.Schema

/-! The snapshot that a workspace selection hands on (`kaine/cycle/types.py`). -/
namespace Kaine
open Py Bus

/-- The arms of the workspace-mediation test. -/
inductive Arm where
  | competitive
  | matched
  | pooled
  deriving DecidableEq

/-- The metadata keys that a selection writes, each none where the key is absent. -/
structure Metadata (F : Type*) where
  coherence : Option F := none
  /-- The source and factor of an active regulation bias. -/
  regulationBias : Option (String × F) := none
  accessThreshold : Option F := none
  arm : Option Arm := none
  coalitionCapacity : Option ℕ := none

structure WorkspaceSnapshot (F : Type*) where
  tickIndex : ℤ
  selectedEvents : List (String × Event) := []
  inhibited : Bool := false
  salienceScores : List (String × F) := []
  metadata : Metadata F := {}

end Kaine
