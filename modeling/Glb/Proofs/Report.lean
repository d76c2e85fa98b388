import Glb.Report
import Glb.Control
import Glb.Proofs.RouterTable

namespace Glb.Proofs.Report
open Lib.Printf RouterTable

variable {bufLen : Nat}

theorem texts_inside_iff (h : 1 ≤ bufLen) (buf : List Char) (texts : List CStr) :
    Inside bufLen (appendAll bufLen texts ⟨buf, 0, []⟩) ↔ Fits bufLen 0 texts :=
  append_all_inside_iff h (fun _ hc => by cases hc) texts

/-- Each of the three reports stays inside its buffer exactly if it is shorter than the
buffer or some of its pieces fill it to the character. -/
theorem reports_inside_iff (h : 1 ≤ bufLen) (buf : List Char) (cnf : Cnf) (r : Router) (w : Wdog)
    (elapsed : Option ℚ) (pools : List Pool) :
    (Inside bufLen (glbRouterPrintInfo cnf r buf bufLen) ↔ Fits bufLen 0 (routerTexts cnf r)) ∧
      (128 < bufLen → ∃ out, glbWdogPrintInfo w buf bufLen = some out ∧
        (Inside bufLen out ↔ Fits bufLen 0 (wdogTexts w))) ∧
      (Inside bufLen (glbPoolPrintInfo elapsed pools buf bufLen) ↔ Fits bufLen 0 (poolTexts elapsed pools)) :=
  ⟨texts_inside_iff h buf _, fun hlen => ⟨_, if_pos hlen, texts_inside_iff h buf _⟩, texts_inside_iff h buf _⟩

def serverAt (i : Nat) : SockAddr := ⟨2, 3306, ⟨10, 0, 0, .ofNat i⟩, 0⟩

/-- A router and a watchdog with `n` destinations of weight one. -/
def listed (n : Nat) : Router :=
  { Router.init with dst := (List.range n).map fun i => ⟨⟨serverAt i, 1⟩, none, 0, 0, 0, 0, 0⟩ }

def watchedServers (n : Nat) : Wdog :=
  { Wdog.init true with
    dst := (List.range n).map fun i => ⟨⟨.ready, 1 / 100, none, 0, true⟩, ⟨serverAt i, 1⟩, 1, i, 0, true⟩ }

theorem reports_inside_small :
    Inside bufsiz (glbRouterPrintInfo roundRobin (listed 2) [] bufsiz) :=
  (reports_inside_iff (by decide) [] roundRobin (listed 2) (watchedServers 1) none []).1.mpr
    (.inl (by decide +kernel))

theorem listed_width (n : Nat) : ∀ line ∈ (listed n).dst.map (routerLine roundRobin), line.length = 55 := by
  intro line hline
  obtain ⟨d, hd, rfl⟩ := List.mem_map.mp hline
  obtain ⟨i, _, rfl⟩ := List.mem_map.mp hd
  rw [routerLine, if_neg (by decide)]
  simp only [List.length_append, glbSockaddrToAstr, Lib.CBuffer.length_overlay, usageText]
  decide +kernel

theorem watched_width (n : Nat) : ∀ line ∈ (watchedServers n).dst.map wdogLine, line.length = 61 := by
  intro line hline
  obtain ⟨d, hd, rfl⟩ := List.mem_map.mp hline
  obtain ⟨i, _, rfl⟩ := List.mem_map.mp hd
  simp only [wdogLine, List.length_append, glbSockaddrToAstr, Lib.CBuffer.length_overlay]
  decide +kernel

/-- The 147th line of the router's report in a buffer of `BUFSIZ` bytes, and the 133rd of
the watchdog's, go past the end without touching it, and so does the pool's heading in
16 bytes. -/
theorem reports_run_past :
    ¬ Inside bufsiz (glbRouterPrintInfo roundRobin (listed 147) [] bufsiz) ∧
      (∃ out, glbWdogPrintInfo (watchedServers 133) [] bufsiz = some out ∧ ¬ Inside bufsiz out) ∧
      ¬ Inside 16 (glbPoolPrintInfo none [] [] 16) := by
  have hrouter : routerHeader.length = 118 := by decide +kernel
  have hwdog : wdogHeader.length = 131 := by decide +kernel
  have hbuf : bufsiz = 8192 := rfl
  refine ⟨?_, ⟨_, if_pos (by decide), ?_⟩, by decide +kernel⟩
  · rw [glbRouterPrintInfo, texts_inside_iff (by decide)]
    refine not_fits_uniform (by decide) (listed_width 147) ?_ ?_
    · simp [hrouter, hbuf, listed]
    · intro k
      omega
  · rw [texts_inside_iff (by decide)]
    refine not_fits_uniform (by decide) (watched_width 133) ?_ ?_
    · simp [hwdog, hbuf, watchedServers]
    · intro k
      omega

end Glb.Proofs.Report
