import TamagoUefi.Net.Tcp4Handshake

/-!
# TamagoUefi.Net.DialPorts — the ports behind the dials (`tcp4.go`)

`Tcp4Demux` follows a dial by its port alone; `Tcp4Dial` has the whole dial, with the segments and the
`Close` calls.  A step of the second is at most one step of the first.

* `portsOf_step`, `portsOf_run`: a run of the table is a run of its ports.
* `localPort_run`: what is proved of ports holds of dials.
-/

namespace TamagoUefi.Net

open Go Lib

/-- The ports behind a table. -/
structure PortsOf (t : Table) (u : Ports) : Prop where
  demux : u.demux = t.demux
  dial : ∀ k, (t.dials k).PortAt (u.dials k)

namespace PortsOf

variable {t : Table} {u : Ports} {k : ℕ} {d : Dial}

theorem setDial (h : PortsOf t u) {s : DialPort} {m : Demux} (hd : d.PortAt s) :
    PortsOf { t.setDial k d with demux := m } { u.setDial k s with demux := m } := by
  refine ⟨rfl, fun j => ?_⟩
  change ((t.setDial k d).dials j).PortAt ((u.setDial k s).dials j)
  by_cases hjk : j = k
  · subst hjk
    rwa [Table.setDial_self, Ports.setDial_self]
  · rw [Table.setDial_of_ne hjk, Ports.setDial_of_ne hjk]
    exact h.dial j

theorem move (h : PortsOf t u) (hd : d.PortAt (u.dials k)) : PortsOf (t.setDial k d) u := by
  have hu : { u.setDial k (u.dials k) with demux := t.demux } = u := by
    rw [Ports.setDial, Function.update_eq_self, ← h.demux]
  exact hu ▸ h.setDial (m := t.demux) hd

end PortsOf

/-- A release by a `Close` call: the late one of two releases the port again. -/
theorem PortsOf.release_handed {t : Table} {u : Ports} (h : PortsOf t u) {k : ℕ}
    (hk : (t.dials k).phase.handed = true) :
    u.after (.release k) = { u.setDial k (.released (t.dials k).localPort) with
      demux := t.demux.releaseTCP4 (t.dials k).localPort } := by
  have hat := h.dial k
  revert hat hk
  unfold Dial.PortAt Ports.after
  cases (t.dials k).phase with
  | returned => simp +contextual [h.demux]
  | closed =>
    rintro - (hs | hs)
    · simp only [hs, h.demux]
    · simp only [hs, h.demux]
  | _ => nofun

/-- **One step** of the table is at most one step of its ports. -/
theorem portsOf_step {t t' : Table} {u : Ports} {e : TableEvent} {ps : List PortEvent} (hsane : t.Sane)
    (h : PortsOf t u) (he : TableStep t e ps t') : PortsOf t' (runFrom Ports.after u ps) := by
  cases he with
  | shut => exact ⟨congrArg (fun d : Demux => { d with closed := true }) h.demux, h.dial⟩
  | quiet hq =>
    refine ⟨h.demux.trans hq.demux.symm, fun k => ?_⟩
    rw [Dial.PortAt, hq.phase, hq.port]
    exact h.dial k
  | move hport _ _ => exact h.move (hport _ (h.dial _))
  | @alloc k mac p m d hk ha hd hp =>
    have hidle := h.dial k
    simp only [Dial.PortAt, hk] at hidle
    simp only [runFrom_cons, runFrom_nil, Ports.after, hidle, h.demux, ha]
    exact h.setDial (by simp only [Dial.PortAt, hd, hp])
  | @register k hk =>
    have hallocated := h.dial k
    simp only [Dial.PortAt, hk] at hallocated
    simp only [runFrom_cons, runFrom_nil, Ports.after, hallocated, h.demux]
    exact h.setDial rfl
  | @release k err hk =>
    have hregistered := h.dial k
    simp only [Dial.PortAt, hk] at hregistered
    simp only [runFrom_cons, runFrom_nil, Ports.after, hregistered, h.demux]
    exact h.setDial (.inr rfl)
  | @early i k hi hk hc =>
    have hregistered := h.dial k
    simp only [Dial.PortAt, hk] at hregistered
    obtain ⟨hdemux, hdial⟩ := h.move (Dial.portAt_closed (.inl hregistered))
    exact ⟨hdemux, hdial⟩
  | @closed i k hi =>
    have hhanded := hsane.closers i k (by rw [hi]; rfl)
    rw [runFrom_cons, runFrom_nil, h.release_handed hhanded]
    obtain ⟨hdemux, hdial⟩ := h.setDial (Dial.portAt_closed (d := t.dials k) (.inr rfl))
    exact ⟨hdemux, hdial⟩

/-- The port steps of a run. -/
def portRun (es : List TableEvent) : List PortEvent := trace Table.after Table.portEvents .start es

/-- **A run of the table is a run of its ports.** -/
theorem portsOf_run (es : List TableEvent) :
    PortsOf (runFrom Table.after .start es) (runFrom Ports.after .start (portRun es)) := by
  have hstart : Table.start.Sane ∧ PortsOf .start .start := ⟨Table.sane_start, rfl, fun _ => rfl⟩
  exact (run_simulation (R := fun t u => t.Sane ∧ PortsOf t u)
    (fun t _ e h => ⟨Table.sane_step h.1 e, portsOf_step h.1 h.2 (t.after_step e)⟩) es hstart).2

/-- A dial that has its port, and has not given it back. -/
def Phase.holds (s : Phase) : Prop := s = .allocated ∨ s.owns = true

theorem PortsOf.held {t : Table} {u : Ports} (h : PortsOf t u) {k : ℕ}
    (hk : (t.dials k).phase.holds) : (u.dials k).held = some (t.dials k).localPort := by
  have hat := h.dial k
  revert hat hk
  unfold Dial.PortAt Phase.holds
  cases (t.dials k).phase <;> simp +contextual [Phase.owns, DialPort.held]

/-- **Ephemeral ports of the dials**: in a run whose port steps are clear, two dials under way or
established have different ports. -/
theorem localPort_run {es : List TableEvent} (hscan : RunMeets Ports.after ScanClear .start (portRun es))
    (hrelease : RunMeets Ports.after ReleaseClear .start (portRun es)) {i j : ℕ}
    (hi : ((runFrom Table.after .start es).dials i).phase.holds)
    (hj : ((runFrom Table.after .start es).dials j).phase.holds)
    (hports : ((runFrom Table.after .start es).dials i).localPort =
      ((runFrom Table.after .start es).dials j).localPort) : i = j := by
  have hsim := portsOf_run es
  exact (exclusive_run hscan hrelease List.prefix_rfl).distinct i j _ (hsim.held hi)
    (hports ▸ hsim.held hj)

end TamagoUefi.Net
