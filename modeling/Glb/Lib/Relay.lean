import Glb.Lib.Run
import Mathlib.Logic.Function.Basic

namespace Lib.Relay
open Function Lib.Run

/-- What a relay does: a session begins, symbols enter or leave one of its queues, the
session ends. -/
inductive Act (K D α : Type) where
  | join (k : K)
  | take (k : K) (way : D) (xs : List α)
  | give (k : K) (way : D) (xs : List α)
  | leave (k : K)
deriving DecidableEq

/-- The acts that move symbols. -/
def Act.moves : Act K D α → Option (Act K D α)
  | .take k way xs => some (.take k way xs)
  | .give k way xs => some (.give k way xs)
  | _ => none

/-- The open sessions, with what each holds in every direction. -/
abbrev Sessions (K D α : Type) := K → Option (D → List α)

variable {K D α : Type} [DecidableEq K] [DecidableEq D] [DecidableEq α]
variable {σ τ : Sessions K D α} {k : K} {way : D} {q : D → List α} {xs rest : List α} {room : Nat}

/-- A relay takes no more than `room` symbols for one direction and gives them on in order. -/
def relayStep (room : Nat) (σ : Sessions K D α) : Act K D α → Option (Sessions K D α)
  | .join k => if σ k = none then some (update σ k (some fun _ => [])) else none
  | .take k way xs => (σ k).bind fun q =>
    if (q way).length + xs.length ≤ room then some (update σ k (some (update q way (q way ++ xs)))) else none
  | .give k way xs => (σ k).bind fun q =>
    if (q way).take xs.length = xs then some (update σ k (some (update q way ((q way).drop xs.length))))
    else none
  | .leave k => (σ k).bind fun _ => some (update σ k none)

theorem relay_join (h : σ k = none) : relayStep room σ (.join k) = some (update σ k (some fun _ => [])) := by
  simp [relayStep, h]

theorem relay_take (h : σ k = some q) (hr : (q way).length + xs.length ≤ room) :
    relayStep room σ (.take k way xs) = some (update σ k (some (update q way (q way ++ xs)))) := by
  simp [relayStep, h, hr]

theorem relay_give (h : σ k = some q) (hq : q way = xs ++ rest) :
    relayStep room σ (.give k way xs) = some (update σ k (some (update q way rest))) := by
  simp [relayStep, h, hq]

theorem relay_leave (h : σ k = some q) : relayStep room σ (.leave k) = some (update σ k none) := by
  simp [relayStep, h]

end Lib.Relay
