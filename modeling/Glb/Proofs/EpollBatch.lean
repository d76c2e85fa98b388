import Glb.Lib.Run
import Glb.Proofs.LoopBody
import Mathlib.Data.List.TakeWhile

namespace Glb.Proofs.EpollBatch
open Function Lib.Run PoolFrame PoolEvents FdTable FdSteps Drop Serving EventCalls LoopBody Registry RouterRun

variable {build : Build} {cnf : Cnf} {w w' : World} {b : Nat} {c c' : Conn} {s : Side} {fd x : Fd}
variable {ev ev' : EpollEvent} {evs : List EpollEvent}

/-- A handler will be called for the event. -/
def Active (ev : EpollEvent) : Prop :=
  ev.events &&& poolFdRead ≠ 0 ∨ ev.events &&& poolFdWrite ≠ 0

instance : Decidable (Active ev) :=
  inferInstanceAs (Decidable (ev.events &&& poolFdRead ≠ 0 ∨ ev.events &&& poolFdWrite ≠ 0))

/-- The event that ends the batch. -/
def endsBatch (w : World) (ev : EpollEvent) : Bool :=
  ev.events &&& poolFdRead ≠ 0 ∧ ev.fd = w.ctlRecv

/-- The events in front of the first one for the control pipe. -/
def handled (w : World) (evs : List EpollEvent) : List EpollEvent :=
  evs.takeWhile fun ev => !endsBatch w ev

/-- Handling `ev` may close the descriptor that `ev'` is about. -/
def Disturbs (w : World) (ev ev' : EpollEvent) : Prop :=
  ev.events &&& poolFdWrite ≠ 0 ∧ (endAt w ev.fd).any (fun e => Exposed e) = true ∧
    partnerAt w ev.fd = some ev'.fd ∧ Active ev'

instance : Decidable (Disturbs w ev ev') :=
  inferInstanceAs (Decidable (_ ∧ _ ∧ _ ∧ _))

/-- No event is for a descriptor that an earlier one may close, and the control pipe
is not reported for writing alone. -/
def Undisturbed (w : World) (evs : List EpollEvent) : Prop :=
  (∀ ev ∈ handled w evs, ev.fd = w.ctlRecv → ev.events &&& poolFdWrite = 0) ∧
    (handled w evs).Pairwise fun ev ev' => ¬ Disturbs w ev ev'

instance : Decidable (Undisturbed w evs) :=
  inferInstanceAs (Decidable (_ ∧ List.Pairwise _ _))

/-- The next call is on a descriptor that leads somewhere. -/
def RoutedCall (s : EventLoop) (_ : EventEnv) : Prop :=
  ∀ fd, s.call = some fd → s.world.routeMap fd ≠ none

instance (l : EventLoop) (env : EventEnv) : Decidable (RoutedCall l env) :=
  decidable_of_iff (l.call.all (fun fd => (l.world.routeMap fd).isSome) = true) (by
    simp [RoutedCall, Option.all_eq_true, Option.isSome_iff_ne_none])

section safety

theorem handled_cons (h : endsBatch w ev = false) : handled w (ev :: evs) = ev :: handled w evs := by
  simp [handled, h]

theorem ends_congr (hc : w'.ctlRecv = w.ctlRecv) : endsBatch w' = endsBatch w := by
  unfold endsBatch
  rw [hc]

theorem handled_congr (hc : w'.ctlRecv = w.ctlRecv) : handled w' = handled w := by
  unfold handled
  rw [ends_congr hc]

theorem disturbs_congr (he : endAt w' ev.fd = endAt w ev.fd) (hp : partnerAt w' ev.fd = partnerAt w ev.fd) :
    Disturbs w' ev ev' ↔ Disturbs w ev ev' := by
  unfold Disturbs
  rw [he, hp]

theorem handled_mem (h : ev ∈ handled w evs) : ev ∈ evs := (List.takeWhile_sublist _).mem h

/-- What is left of a batch in which nothing is disturbed. -/
structure Clear (w : World) (evs : List EpollEvent) : Prop where
  ready : Ready .epoll w
  nodup : (evs.map EpollEvent.fd).Nodup
  routed : ∀ ev ∈ handled w evs, Active ev → w.routeMap ev.fd ≠ none
  apart : (handled w evs).Pairwise fun ev ev' => ¬ Disturbs w ev ev'

def Safe (s : EventLoop) : Prop :=
  match s.cursor with
  | .event evs => Clear s.world evs
  | .eventWrite ev evs => endsBatch s.world ev = false ∧ Clear s.world (ev :: evs)
  | .returned => True
  | _ => False

theorem Clear.tail (h : Clear w (ev :: evs)) (he : endsBatch w ev = false) : Clear w evs := by
  have hr := h.routed
  have ha := h.apart
  rw [handled_cons he] at hr ha
  exact ⟨h.ready, (List.nodup_cons.mp h.nodup).2, fun ev' hm => hr ev' (List.mem_cons_of_mem _ hm),
    (List.pairwise_cons.mp ha).2⟩

theorem Clear.head_fresh (h : Clear w (ev :: evs)) (hm : ev' ∈ handled w evs) : ev'.fd ≠ ev.fd := by
  intro he
  refine (List.nodup_cons.mp h.nodup).1 ?_
  rw [← he]
  exact List.mem_map_of_mem (handled_mem hm)

theorem safe_call (h : Safe l) (env : EventEnv) : RoutedCall l env := by
  obtain ⟨w, cursor⟩ := l
  intro fd hfd
  cases cursor with
  | event evs =>
    cases evs with
    | nil => cases hfd
    | cons ev evs =>
      have hclear : Clear w (ev :: evs) := h
      simp only [EventLoop.call, Option.ite_none_right_eq_some, Option.some.injEq] at hfd
      obtain ⟨⟨hread, hne⟩, rfl⟩ := hfd
      have he : endsBatch w ev = false := by simp [endsBatch, hne]
      refine hclear.routed ev ?_ (Or.inl hread)
      rw [handled_cons he]
      exact List.mem_cons_self
  | eventWrite ev evs =>
    obtain ⟨he, hclear⟩ : endsBatch w ev = false ∧ Clear w (ev :: evs) := h
    simp only [EventLoop.call, Option.ite_none_right_eq_some, Option.some.injEq] at hfd
    obtain ⟨hwrite, rfl⟩ := hfd
    refine hclear.routed ev ?_ (Or.inr hwrite)
    rw [handled_cons he]
    exact List.mem_cons_self
  | returned => cases hfd
  | top count => exact absurd h id
  | slot idx count => exact absurd h id
  | slotWrite idx count revents => exact absurd h id

/-- Trying to read for the first event of the batch. -/
theorem Clear.kept (h : Clear w (ev :: evs)) (he : endsBatch w ev = false)
    (K : Kept .epoll w w' ev.fd)
    (hown : (endAt w' ev.fd).map (fun e => (e.total, e.kind)) =
      (endAt w ev.fd).map (fun e => (e.total, e.kind))) : Clear w' (ev :: evs) := by
  have hrouted := h.routed
  have hapart := h.apart
  refine ⟨K.ready, h.nodup, ?_, ?_⟩
  · rw [handled_congr K.ctl]
    exact fun ev' hm ha => K.routed.mpr (hrouted ev' hm ha)
  · have hexposed := exposed_congr hown
    rw [handled_congr K.ctl, handled_cons he] at *
    obtain ⟨hhead, htail⟩ := List.pairwise_cons.mp hapart
    refine List.pairwise_cons.mpr ⟨fun ev' hm hd => hhead ev' hm ?_, ?_⟩
    · obtain ⟨hwrite, hx, hp, hact⟩ := hd
      exact ⟨hwrite, hexposed ▸ hx, K.partner ▸ hp, hact⟩
    · refine htail.imp_of_mem fun {e1 e2} h1 h2 hnot hd => hnot ?_
      have hact : Active e1 := Or.inr hd.1
      have hne1 := h.head_fresh h1
      have hne2 := h.head_fresh h2
      have hp : partnerAt w ev.fd ≠ some e1.fd := by
        intro hp
        have hback := (K.back hp).2
        rw [hd.2.2.1, Option.some.injEq] at hback
        exact hne2 hback
      obtain ⟨hend, hpart⟩ := K.other (hrouted e1 (List.mem_cons_of_mem _ h1) hact) hne1 hp
      exact (disturbs_congr hend hpart).mp hd

/-- Writing for the first event of the batch. -/
theorem Clear.written (h : Clear w (ev :: evs)) (he : endsBatch w ev = false) (R' : Ready .epoll w')
    (hh : Held w b c) (hfd : ev.fd = (side c s).sock) (A : Aside w w' b c)
    (hidle : ev.events &&& poolFdWrite = 0 ∨ ¬ Exposed (side c s) → ∃ stats, w' = { w with stats := stats }) :
    Clear w' evs := by
  have htail := h.tail he
  by_cases hsafe : ev.events &&& poolFdWrite = 0 ∨ ¬ Exposed (side c s)
  · obtain ⟨stats, rfl⟩ := hidle hsafe
    exact ⟨R', htail.nodup, htail.routed, htail.apart⟩
  · -- the connection may be gone, but then no event is left for its other descriptor
    rw [not_or, not_not] at hsafe
    have hapart := h.apart
    rw [handled_cons he] at hapart
    have hother : ∀ ev' ∈ handled w evs, Active ev' → ∀ t, ev'.fd ≠ (side c t).sock := by
      intro ev' hm hact t
      rcases side_cases s t with rfl | rfl
      · rw [← hfd]
        exact h.head_fresh hm
      · intro hp
        refine (List.pairwise_cons.mp hapart).1 ev' hm ⟨hsafe.1, ?_, ?_, hact⟩
        · rw [hfd, end_at hh (h.ready.kinds hh)]
          simpa using hsafe.2
        · rw [hfd, partner_at hh, hp]
    refine ⟨R', htail.nodup, ?_, ?_⟩
    · rw [handled_congr A.ctl]
      intro ev' hm hact
      have hne := hother ev' hm hact
      rw [A.routes (hne .inc) (hne .dst) (htail.routed ev' hm hact)]
      exact htail.routed ev' hm hact
    · rw [handled_congr A.ctl]
      refine htail.apart.imp_of_mem fun {e1 e2} h1 _ hnot hd => hnot ?_
      have hact : Active e1 := Or.inr hd.1
      obtain ⟨hend, hpart⟩ := aside_ends h.ready A hh (htail.routed e1 h1 hact) (hother e1 h1 hact)
      exact (disturbs_congr hend hpart).mp hd

theorem safe_step (h : Safe l) (hs : poolHandleEvents .epoll cnf l env = some t) : Safe t := by
  obtain ⟨w, cursor⟩ := l
  cases cursor with
  | event evs =>
    cases evs with
    | nil =>
      rw [show poolHandleEvents .epoll cnf ⟨w, .event []⟩ env = some ⟨w, .returned⟩ from rfl,
        Option.some.injEq] at hs
      subst hs
      trivial
    | cons ev evs =>
      have hclear : Clear w (ev :: evs) := h
      simp only [poolHandleEvents] at hs
      split at hs
      · obtain ⟨w1, _, rfl⟩ := Option.map_eq_some_iff.mp hs
        trivial
      · rename_i hctl
        have he : endsBatch w ev = false := by simpa [endsBatch] using hctl
        by_cases hr : w.routeMap ev.fd ≠ none
        · rcases readable_kept hclear.ready hr hs with hret | ⟨hcur, K, hown⟩
          · unfold Safe
            rw [hret]
            trivial
          · unfold Safe
            rw [hcur]
            exact ⟨(ends_congr K.ctl ▸ he), hclear.kept he K hown⟩
        · -- nothing is called for the event
          have hact : ¬ Active ev := by
            intro hact
            refine hr (hclear.routed ev ?_ hact)
            rw [handled_cons he]
            exact List.mem_cons_self
          have hread : ¬ ev.events &&& poolFdRead ≠ 0 := fun hx => hact (Or.inl hx)
          rw [handleReadable, if_neg hread, Option.some.injEq] at hs
          subst hs
          exact ⟨he, hclear⟩
  | eventWrite ev evs =>
    obtain ⟨he, hclear⟩ : endsBatch w ev = false ∧ Clear w (ev :: evs) := h
    simp only [poolHandleEvents] at hs
    by_cases hr : w.routeMap ev.fd ≠ none
    · obtain ⟨hcur, R', b, c, s, hh, hfd, A, _, hidle⟩ := writable_slots hclear.ready hr hs
      unfold Safe
      rw [hcur]
      exact hclear.written he R' hh hfd A hidle
    · have hact : ¬ Active ev := by
        intro hact
        refine hr (hclear.routed ev ?_ hact)
        rw [handled_cons he]
        exact List.mem_cons_self
      have hwrite : ¬ ev.events &&& poolFdWrite ≠ 0 := fun hx => hact (Or.inr hx)
      rw [handleWritable, if_neg hwrite, Option.some.injEq] at hs
      subst hs
      exact hclear.tail he
  | returned => cases hs
  | top count => exact absurd h id
  | slot idx count => exact absurd h id
  | slotWrite idx count revents => exact absurd h id

end safety

section failing

theorem read_half (he : endsBatch w ev = false) :
    poolHandleEvents .epoll cnf ⟨w, .event (ev :: evs)⟩ env =
      handleReadable .epoll cnf w ev.fd ev.events (.eventWrite ev evs) env := by
  have hctl : ¬ (ev.events &&& poolFdRead ≠ 0 ∧ ev.fd = w.ctlRecv) := by simpa [endsBatch] using he
  simp only [poolHandleEvents, if_neg hctl]

/-- An event whose descriptor is out of the map when the loop gets to it. -/
theorem unrouted_call (cnf : Cnf) (he : endsBatch w ev = false) (hn : w.routeMap ev.fd = none) (ha : Active ev) :
    ¬ Along (poolHandleEvents .epoll cnf) RoutedCall ⟨w, .event (ev :: evs)⟩ [calmEnv, calmEnv] := by
  rintro ⟨hread, hrest⟩
  by_cases hbit : ev.events &&& poolFdRead ≠ 0
  · have hctl : ev.fd ≠ w.ctlRecv := by
      intro hc
      rw [endsBatch, decide_eq_false_iff_not] at he
      exact he ⟨hbit, hc⟩
    exact hread ev.fd (if_pos ⟨hbit, hctl⟩) hn
  · have hs : poolHandleEvents .epoll cnf ⟨w, .event (ev :: evs)⟩ calmEnv = some ⟨w, .eventWrite ev evs⟩ := by
      rw [read_half he, handleReadable, if_neg hbit]
    exact (hrest _ hs).1 ev.fd (if_pos (ha.resolve_left hbit)) hn

/-- An event passes without harm. -/
theorem calm_event (cnf : Cnf) (R : Ready .epoll w) (he : endsBatch w ev = false)
    (hr : Active ev → w.routeMap ev.fd ≠ none) :
    ∃ w', exec (poolHandleEvents .epoll cnf) ⟨w, .event (ev :: evs)⟩ [calmEnv, calmEnv] = some ⟨w', .event evs⟩ ∧
      Kept .epoll w w' ev.fd := by
  obtain ⟨w1, h1, K1, _⟩ := calm_readable cnf R (fun hbit => hr (Or.inl hbit))
    (show Cursor.eventWrite ev evs ≠ .returned by simp)
  obtain ⟨w2, h2, K2⟩ := calm_writable cnf K1.ready (.event evs)
    (fun hbit => K1.routed.mpr (hr (Or.inr hbit)))
  refine ⟨w2, ?_, K1.trans K2⟩
  rw [exec_cons, read_half he, h1, Option.bind_some, exec_cons]
  simp only [poolHandleEvents, h2, Option.bind_some, exec]

theorem handled_split (hm : ev' ∈ handled w (ev :: evs)) :
    endsBatch w ev = false ∧ (ev' = ev ∨ ev' ∈ handled w evs) := by
  cases he : endsBatch w ev with
  | true => simp [handled, he] at hm
  | false =>
    rw [handled_cons he, List.mem_cons] at hm
    exact ⟨rfl, hm⟩

/-- A batch with an event that will be handled for a descriptor out of the map. -/
theorem stale_fails (cnf : Cnf) (R : Ready .epoll w) (hm : ev' ∈ handled w evs) (ha : Active ev')
    (hn : w.routeMap ev'.fd = none) :
    ∃ envs, ¬ Along (poolHandleEvents .epoll cnf) RoutedCall ⟨w, .event evs⟩ envs := by
  induction evs generalizing w with
  | nil => cases hm
  | cons ev evs ih =>
    obtain ⟨he, hm⟩ := handled_split hm
    by_cases hr : Active ev → w.routeMap ev.fd ≠ none
    · obtain ⟨w1, h1, K⟩ := calm_event cnf R he hr
      have hm1 : ev' ∈ handled w1 evs := by
        rw [handled_congr K.ctl]
        refine hm.resolve_left ?_
        rintro rfl
        exact hr ha hn
      obtain ⟨envs, hfail⟩ := ih K.ready hm1 (not_not.mp fun h => K.routed.mp h hn)
      exact ⟨_, not_along_after h1 hfail⟩
    · rw [Classical.not_imp, not_not] at hr
      exact ⟨_, unrouted_call cnf he hr.2 hr.1⟩

/-- The first event of the batch disturbs a later one. -/
theorem disturbed_fails (cnf : Cnf) (R : Ready .epoll w) (he : endsBatch w ev = false)
    (hm : ev' ∈ handled w evs) (hd : Disturbs w ev ev') :
    ∃ envs, ¬ Along (poolHandleEvents .epoll cnf) RoutedCall ⟨w, .event (ev :: evs)⟩ envs := by
  obtain ⟨hbit, hx, hp, ha⟩ := hd
  have hr : w.routeMap ev.fd ≠ none := by
    intro hn
    rw [partnerAt, hn] at hp
    cases hp
  obtain ⟨w1, h1, K, hown⟩ := calm_readable cnf R (fun _ => hr)
    (show Cursor.eventWrite ev evs ≠ .returned by simp)
  obtain ⟨b, c, s, hh, hfd⟩ := K.ready.served (K.routed.mpr hr)
  have hown1 : Exposed (side c s) := by
    rw [← exposed_congr hown, hfd, end_at hh (K.ready.kinds hh)] at hx
    simpa using hx
  have hp1 : (side c s.other).sock = ev'.fd := by
    rw [← K.partner, hfd, partner_at hh] at hp
    exact Option.some.inj hp
  obtain ⟨w2, h2, R2, hctl, hc⟩ := cut_writable cnf K.ready (.event evs) hbit hh hown1
  have hn : w2.routeMap ev'.fd = none := hp1 ▸ cleared_unrouted K.ready.toTabled hc s.other
  rw [← hfd] at h2
  have hm2 : ev' ∈ handled w2 evs := by
    rw [handled_congr (hctl.trans K.ctl)]
    exact hm
  obtain ⟨envs, hfail⟩ := stale_fails cnf R2 hm2 ha hn
  have hexec : exec (poolHandleEvents .epoll cnf) ⟨w, .event (ev :: evs)⟩ [calmEnv, cutEnv] =
      some ⟨w2, .event evs⟩ := by
    rw [exec_cons, read_half he, h1, Option.bind_some, exec_cons]
    simp only [poolHandleEvents, h2, Option.bind_some, exec]
  exact ⟨_, not_along_after hexec hfail⟩

/-- Among later events, whatever is disturbed stays so when the first one passes. -/
theorem kept_disturbs (K : Kept .epoll w w' fd) (hne : ev.fd ≠ fd) (hne' : ev'.fd ≠ fd)
    (hd : Disturbs w ev ev') : Disturbs w' ev ev' := by
  have hr : w.routeMap ev.fd ≠ none := by
    intro hn
    have hp := hd.2.2.1
    rw [partnerAt, hn] at hp
    cases hp
  have hp : partnerAt w fd ≠ some ev.fd := by
    intro hp
    have hback := (K.back hp).1
    rw [hd.2.2.1, Option.some.injEq] at hback
    exact hne' hback
  obtain ⟨hend, hpart⟩ := K.other hr hne hp
  exact (disturbs_congr hend hpart).mpr hd

/-- A batch in which some event disturbs a later one. -/
theorem apart_fails (cnf : Cnf) (R : Ready .epoll w) (hn : (evs.map EpollEvent.fd).Nodup)
    (hd : ¬ (handled w evs).Pairwise fun ev ev' => ¬ Disturbs w ev ev') :
    ∃ envs, ¬ Along (poolHandleEvents .epoll cnf) RoutedCall ⟨w, .event evs⟩ envs := by
  induction evs generalizing w with
  | nil => exact absurd List.Pairwise.nil hd
  | cons ev evs ih =>
    have he : endsBatch w ev = false := by
      by_contra he
      rw [Bool.not_eq_false] at he
      simp [handled, he] at hd
    rw [handled_cons he, List.pairwise_cons, not_and_or] at hd
    have hfresh : ∀ ev' ∈ handled w evs, ev'.fd ≠ ev.fd := by
      intro ev' hm heq
      exact (List.nodup_cons.mp hn).1 (heq ▸ List.mem_map_of_mem (handled_mem hm))
    rcases hd with hd | hd
    · push Not at hd
      obtain ⟨ev', hm, hdist⟩ := hd
      exact disturbed_fails cnf R he hm hdist
    · by_cases hr : Active ev → w.routeMap ev.fd ≠ none
      · obtain ⟨w1, h1, K⟩ := calm_event cnf R he hr
        have hd1 : ¬ (handled w1 evs).Pairwise fun ev ev' => ¬ Disturbs w1 ev ev' := by
          intro hp
          rw [handled_congr K.ctl] at hp
          exact hd (hp.imp_of_mem fun hm hm' hnot hdist =>
            hnot (kept_disturbs K (hfresh _ hm) (hfresh _ hm') hdist))
        obtain ⟨envs, hfail⟩ := ih K.ready (List.nodup_cons.mp hn).2 hd1
        exact ⟨_, not_along_after h1 hfail⟩
      · rw [Classical.not_imp, not_not] at hr
        exact ⟨_, unrouted_call cnf he hr.2 hr.1⟩

end failing

/-- Over a batch of events for registered descriptors, whatever the calls return, the
handlers are only called on descriptors that lead somewhere if and only if no event is
for a descriptor that an earlier one may close. -/
theorem epoll_calls_routed_iff (cnf : Cnf) (R : Ready .epoll w) (hn : (evs.map EpollEvent.fd).Nodup)
    (hreg : ∀ ev ∈ evs, ev.fd ∈ w.fdset.pollfds.map PollFd.fd) :
    (∀ envs, Along (poolHandleEvents .epoll cnf) RoutedCall ⟨w, .event evs⟩ envs) ↔ Undisturbed w evs := by
  constructor
  · intro h
    by_contra hd
    rw [Undisturbed, not_and_or] at hd
    have hfails : ∃ envs, ¬ Along (poolHandleEvents .epoll cnf) RoutedCall ⟨w, .event evs⟩ envs := by
      rcases hd with hd | hd
      · push Not at hd
        obtain ⟨ev, hm, hctl, hbit⟩ := hd
        have hnone : w.routeMap ev.fd = none := by
          by_contra hr
          exact (List.nodup_cons.mp R.nodup).1 (hctl ▸ R.mem.mpr hr)
        exact stale_fails cnf R hm (Or.inr hbit) hnone
      · exact apart_fails cnf R hn hd
    obtain ⟨envs, hfail⟩ := hfails
    exact hfail (h envs)
  · rintro ⟨hctl, hapart⟩ envs
    have hclear : Clear w evs := by
      refine ⟨R, hn, fun ev hm ha => ?_, hapart⟩
      rcases registered_routed R (hreg ev (handled_mem hm)) with hc | hr
      · -- the pipe's descriptor is not handled here
        have hread := ha.resolve_right fun hbit => hbit (hctl ev hm hc)
        have hends : endsBatch w ev = true := decide_eq_true ⟨hread, hc⟩
        have hnot := List.mem_takeWhile_imp hm
        rw [hends] at hnot
        cases hnot
      · exact hr
    exact along_invariant (fun _ _ _ => safe_step) (fun _ env h => safe_call h env)
      (show Safe ⟨w, .event evs⟩ from hclear) envs

section examples

/-- The server refuses, and the client has sent something meanwhile. -/
def refusedBatch : List EpollEvent := [⟨7, poolFdWrite⟩, ⟨6, poolFdRead⟩]

/-- With no other server the connection is removed, and then the client's event is
handled for a descriptor that leads nowhere. -/
theorem epoll_calls_stale :
    exec (daemonStep .epoll leastConns noWdog) oneDaemon connectA = some (reachedBy leastConns connectA) ∧
    Ready .epoll (firstPool (reachedBy leastConns connectA)) ∧
    (refusedBatch.map EpollEvent.fd).Nodup ∧
    (∀ ev ∈ refusedBatch, ev.fd ∈ (firstPool (reachedBy leastConns connectA)).fdset.pollfds.map PollFd.fd) ∧
    ¬ Along (poolHandleEvents .epoll leastConns) RoutedCall
      ⟨firstPool (reachedBy leastConns connectA), .event refusedBatch⟩ [refusedEnv, refusedEnv, refusedEnv] :=
  ⟨reached_by leastConns connectA (by decide +kernel),
    first_ready (reached_by leastConns connectA (by decide +kernel)) (by decide +kernel) (by decide +kernel),
    by decide, by decide +kernel, by decide +kernel⟩

def clientsFirst : List EpollEvent := [⟨6, poolFdRead⟩, ⟨8, poolFdRead⟩, ⟨7, poolFdWrite⟩, ⟨9, poolFdWrite⟩]

theorem epoll_calls_routed_clients_first :
    Undisturbed (firstPool (reachedBy leastConns twoClients)) clientsFirst ∧
    ∀ envs, Along (poolHandleEvents .epoll leastConns) RoutedCall
      ⟨firstPool (reachedBy leastConns twoClients), .event clientsFirst⟩ envs := by
  have R : Ready .epoll (firstPool (reachedBy leastConns twoClients)) :=
    first_ready (reached_by leastConns twoClients (by decide +kernel)) (by decide +kernel) (by decide +kernel)
  have hd : Undisturbed (firstPool (reachedBy leastConns twoClients)) clientsFirst := by decide +kernel
  exact ⟨hd, (epoll_calls_routed_iff leastConns R (by decide) (by decide +kernel)).mpr hd⟩

end examples

end Glb.Proofs.EpollBatch
