import Sews.Runtime.Gauge

/-!
# What the shutdown closes

After the loop the dispatcher takes every connection of the table off epoll's list
and then calls `connectionManager->clear()`, as at the end of a batch.  But `clear`
closes what is marked, and at the top of the loop nothing is.  So the connections of
the table stay open and in the table (`client_closed_iff`), and the shutdown leaves
everything closed exactly when the table is empty (`all_closed_iff`).
-/

namespace Sews.Runtime

open Cpp Sews.Http Sews.Connection Sews.Reactor Sews.Telemetry Dispatcher

variable {H : Type} {s s' : State H} {listenFd : Fd} {memory : Bool} {metrics : Metrics}
  {labels : List (Label H)} {order : List (Σ _ : Fd, ChannelId)} {granted : Nat → Bool}

/-- Every connection accepted so far is closed, epoll watches nothing, the table is
empty, and the listener is closed. -/
structure AllClosed (s : State H) : Prop where
  clients : ∀ id, id ≠ serverChannel → id < s.nextId →
    Act.close ∈ s.acts id ∧ ∀ fd, s.kernel.files fd ≠ some id
  unwatched : ∀ fd, s.kernel.interest fd = none
  count : s.manager.count = 0
  listener : s.getFd serverChannel = -1 ∧ ∀ fd, s.kernel.files fd ≠ some serverChannel

/-- The listener's socket is open under the listener's descriptor only. -/
def OneListener (s : State H) : Prop :=
  ∀ fd, s.kernel.files fd = some serverChannel → fd = s.getFd serverChannel

theorem OneListener.moves {label : Label H} (hl : OneListener s) (h : Owned s) (hm : Moves s label s')
    (hrun : s'.phase ≠ .returned) : OneListener s' := by
  have hnew : serverChannel ≠ s.nextId := (h.fresh s.nextId le_rfl).2.2.2.symm
  intro fd hfile
  cases hm with
  | poll order ready htop horder => exact hl fd hfile
  | refused a flag events hphase hneg => exact hl fd hfile
  | accepted a flag events hphase hpos hfree =>
    rw [Owned.getFd_welcome, if_neg hnew]
    rw [Owned.files_welcome] at hfile
    split at hfile
    · exact absurd (Option.some.inj hfile).symm hnew
    · exact hl fd hfile
  | client a flag id events channel e s' hphase hm hobj he ha =>
    rw [ha.files] at hfile
    rw [ha.getFd]
    exact hl fd hfile
  | cleanup granted s' hphase hw =>
    rw [hw.files] at hfile
    rw [hw.getFd, if_neg fun hmark => h.server_unmarked hmark.2]
    split at hfile
    · cases hfile
    · exact hl fd hfile
  | stop order granted s' htop hstop => exact absurd hstop.phase hrun

theorem oneListener_of_run (hfd : 0 ≤ listenFd)
    (h : Run step Fresh (initial listenFd memory metrics) labels s) (hrun : s.phase ≠ .returned) :
    OneListener s := by
  refine inv_of_run hfd (fun _ _ hok => hok) h hrun (fun fd hfile => ?_)
    fun s label s' hown hl _ hm hrun' => hl.moves hown hm hrun'
  rw [files_initial, Function.update_apply] at hfile
  split at hfile
  · assumption
  · cases hfile

theorem stop_eq (hs : step s (.stop order granted) = some s') :
    s.phase = .top ∧ s' = shutdown s order granted := by
  simp only [step] at hs
  split at hs
  · rename_i hc
    exact ⟨hc.1, (Option.some.inj hs).symm⟩
  · cases hs

theorem step_stop (htop : s.phase = .top) (horder : UnorderedMap.Enumerates order s.manager.channels)
    (granted : Nat → Bool) : step s (.stop order granted) = some (shutdown s order granted) := by
  rw [step, if_pos ⟨htop, horder⟩]

/-- The shutdown puts nothing on epoll's list, and takes the listener off it. -/
theorem interest_shutdown (h : Owned s) (htop : s.phase = .top) (order : List (Σ _ : Fd, ChannelId))
    (granted : Nat → Bool) {fd : Fd}
    (hfd : fd = s.getFd serverChannel ∨ s.kernel.interest fd = none) :
    (shutdown s order granted).kernel.interest fd = none := by
  obtain ⟨channel, hobj⟩ := h.server_object
  obtain ⟨interest, hnone, heq⟩ := shutdown_eq h htop hobj order granted
  rw [heq]
  show Function.update interest channel.fd none fd = none
  rw [Function.update_apply]
  split
  · rfl
  · rename_i hne
    rw [getFd_eq hobj] at hfd
    exact hnone fd (hfd.resolve_left hne)

theorem getFd_shutdown (h : Owned s) (htop : s.phase = .top) (order : List (Σ _ : Fd, ChannelId))
    (granted : Nat → Bool) : (shutdown s order granted).getFd serverChannel = -1 := by
  obtain ⟨channel, hobj⟩ := h.server_object
  obtain ⟨interest, -, heq⟩ := shutdown_eq h htop hobj order granted
  have hclosed : (shutdown s order granted).objects serverChannel = some { channel with fd := -1 } := by
    rw [heq]
    show Function.update s.objects serverChannel _ serverChannel = _
    exact Function.update_self ..
  exact getFd_eq hclosed

/-- **The shutdown closes no connection**: those that are closed at its end are those
that had left the table. -/
theorem client_closed_iff (hfd : 0 ≤ listenFd)
    (h : Run step Fresh (initial listenFd memory metrics) labels s)
    (hs : step s (.stop order granted) = some s') {id : ChannelId} (hid : id ≠ serverChannel)
    (hlt : id < s'.nextId) : Act.close ∈ s'.acts id ↔ ¬ s.Managed id := by
  obtain ⟨htop, rfl⟩ := stop_eq hs
  have hrun : s.phase ≠ .returned := by simp [htop]
  have hstop := stopped_shutdown (owned_of_run hfd h hrun) htop order granted
  rw [hstop.acts id hid]
  rw [hstop.nextId] at hlt
  rcases life_of_run hfd h hrun id hid hlt with ⟨hm, hlive, -⟩ | ⟨hnm, ⟨before, hacts, -⟩, -⟩
  · exact iff_of_false hlive.1 (not_not_intro hm)
  · refine iff_of_true ?_ hnm
    rw [hacts]
    simp

theorem files_of_empty (h : Owned s) (hl : OneListener s)
    (hnone : ∀ fd, s.manager.channels.lookup fd = none) {fd : Fd} (hfd : fd ≠ s.getFd serverChannel) :
    s.kernel.files fd = none := by
  cases hfile : s.kernel.files fd with
  | none => rfl
  | some id =>
    rcases h.file fd id hfile with rfl | hlookup
    · exact absurd (hl fd hfile) hfd
    · rw [hnone fd] at hlookup
      cases hlookup

/-- **The shutdown leaves everything closed if there is no connection to close.** -/
theorem all_closed_iff (hfd : 0 ≤ listenFd)
    (h : Run step Fresh (initial listenFd memory metrics) labels s)
    (hs : step s (.stop order granted) = some s') : AllClosed s' ↔ s.manager.count = 0 := by
  obtain ⟨htop, heq⟩ := stop_eq hs
  have hrun : s.phase ≠ .returned := by simp [htop]
  have hown := owned_of_run hfd h hrun
  have hstop : Stopped s s' := by
    rw [heq]
    exact stopped_shutdown hown htop order granted
  constructor
  · intro hall
    rw [← hstop.manager]
    exact hall.count
  · intro hcount
    have hnone : ∀ fd, s.manager.channels.lookup fd = none := UnorderedMap.size_eq_zero_iff.mp hcount
    have hold := fun fd => @files_of_empty H s hown (oneListener_of_run hfd h hrun) hnone fd
    have hfiles : ∀ fd, s'.kernel.files fd = none := by
      intro fd
      rw [hstop.files]
      split
      · rfl
      · rename_i hne
        exact hold fd hne
    refine ⟨fun id hid hlt => ⟨?_, fun fd => ?_⟩, fun fd => ?_, ?_, ?_, fun fd => ?_⟩
    · refine (client_closed_iff hfd h hs hid hlt).mpr fun hm => ?_
      rw [State.Managed, hnone] at hm
      cases hm
    · rw [hfiles]
      simp
    · rw [heq]
      refine interest_shutdown hown htop order granted ?_
      by_cases hserver : fd = s.getFd serverChannel
      · exact Or.inl hserver
      · exact Or.inr (hown.interest fd (hold fd hserver))
    · rw [hstop.manager]
      exact hcount
    · rw [heq]
      exact getFd_shutdown hown htop order granted
    · rw [hfiles]
      simp

/-- A connection that came and was hung up, before the server is stopped. -/
def goneLabels : List (Label Unit) := hangupLabels ++ [.cleanup fun _ => true]

def gone : State Unit := (Run.exec step Fresh (initial 3 true ∅) goneLabels).get (by decide +kernel)

theorem all_closed_iff_gone :
    ∃ s', step gone (.stop [] fun _ => false) = some s' ∧ AllClosed s' ∧ Act.close ∈ s'.acts 1 := by
  have hrun : Run step Fresh (initial 3 true ∅) goneLabels gone :=
    Run.of_exec goneLabels _ (Option.some_get _).symm
  have hs : step gone (.stop [] fun _ => false) = some (shutdown gone [] fun _ => false) :=
    step_stop (by decide +kernel) (by decide +kernel) _
  have hall := (all_closed_iff (by decide) hrun hs).mpr (by decide +kernel)
  exact ⟨_, hs, hall, (hall.clients 1 (by decide) (by decide +kernel)).1⟩

/-- A connection in the table when the server is stopped. -/
def connectedLabels : List (Label Unit) :=
  [.poll [] [⟨{ epollin := true }, 3⟩], .event { app := idleApp, accepted := 4 }, .cleanup fun _ => true]

def connected : State Unit :=
  (Run.exec step Fresh (initial 3 true ∅) connectedLabels).get (by decide +kernel)

/-- The shutdown takes the connection off epoll's list and leaves it open. -/
theorem left_open :
    Run step Fresh (initial 3 true ∅) connectedLabels connected ∧
    ∃ s', step connected (.stop [⟨4, 1⟩] fun _ => true) = some s' ∧ s'.phase = .returned ∧
      s'.kernel.interest 4 = none ∧ s'.kernel.files 4 = some 1 ∧ s'.acts 1 = [.accept 4] ∧
      s'.manager.count = 1 ∧ ¬ AllClosed s' := by
  refine ⟨Run.of_exec connectedLabels _ (Option.some_get _).symm,
    shutdown connected [⟨4, 1⟩] fun _ => true, step_stop (by decide +kernel) (by decide +kernel) _,
    by decide +kernel, by decide +kernel, by decide +kernel, by decide +kernel, by decide +kernel,
    fun hall => ?_⟩
  exact (hall.clients 1 (by decide) (by decide +kernel)).2 4 (by decide +kernel)

end Sews.Runtime
