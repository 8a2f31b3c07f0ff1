import Mathlib.Logic.Function.Basic
import SnapLisp.Session.Workspace

/-!
# Sessions side by side

Sessions that share an environment have the same founder: the one of them that was created first, with an
environment of its own. They are those with the same seat (`seat_eq_iff`). A workspace keeps one environment
for each founder, and a step reads and writes that of its founder alone (`Seated.answer`). So whatever the
steps in between are and however they end, the steps of one founder are answered like requests to a single
session (`serve_own`), and like the same steps in a workspace of their own (`serve_isolated`).
-/

namespace SnapLisp
namespace Workspace

/-- The answers to requests in one environment, each with the environment after it. -/
def Request.answers (mode : Mode) :
    List Request → Environment → List (Option Session.Answer × Environment)
  | [], _ => []
  | request :: requests, env =>
    request.answer mode env :: answers mode requests (request.answer mode env).2

/-- A request with the session that it is put to, which a creation creates. -/
structure Step where
  session : Int
  request : Request

/-- Steps with their answers and the environments that their sessions have after them. -/
def serve (mode : Mode) : List Step → Workspace → List (Step × Option Session.Answer × Environment)
  | [], _ => []
  | step :: steps, ws =>
    let (answer, env, ws) := ws.answer mode step.session step.request
    (step, answer, env) :: serve mode steps ws

theorem map_fst_serve (mode : Mode) (steps : List Step) (ws : Workspace) :
    (serve mode steps ws).map (·.1) = steps := by
  induction steps generalizing ws with
  | nil => rfl
  | cons step steps ih => exact congrArg (step :: ·) (ih _)

/-- The workspace after the steps. -/
def after (ws : Workspace) (mode : Mode) (steps : List Step) : Workspace :=
  steps.foldl (fun ws step => (ws.answer mode step.session step.request).2.2) ws

/-- A new session has the founder of the one it shares with, or founds a group. -/
def enroll (founder : Int → Option Int) (step : Step) : Int → Option Int :=
  if founder step.session = none then
    Function.update founder step.session (some ((step.request.shared.bind founder).getD step.session))
  else founder

/-- The founders of the sessions that the steps create. -/
def founders (steps : List Step) : Int → Option Int :=
  steps.foldl enroll fun _ => none

/-- Founders are their own founders. -/
def IsClosed (founder : Int → Option Int) : Prop :=
  ∀ session f, founder session = some f → founder f = some f

/-- Each founder has a seat of its own, at which its environment is, and the sessions that it founded have
that seat. `store` has the environments; it gives the initial one to whoever has no founder yet. -/
structure Seated (ws : Workspace) (founder : Int → Option Int) (seat : Int → Nat)
    (store : Int → Environment) : Prop where
  lookup : ∀ session, ws.seats.lookup session = (founder session).map seat
  isClosed : IsClosed founder
  seat_lt : ∀ {f}, founder f = some f → seat f < ws.environments.length
  seat_inj : ∀ {f g}, founder f = some f → founder g = some g → seat f = seat g → f = g
  environment : ∀ {f}, founder f = some f → ws.environment (seat f) = store f
  initial : ∀ {f}, founder f = none → store f = .initial

variable {ws : Workspace} {founder : Int → Option Int} {seat : Int → Nat} {store : Int → Environment}
  {mode : Mode}

theorem ne_of_none {s f g : Int} (hs : founder s = none) (hf : founder f = some g) : f ≠ s := by
  rintro rfl
  cases hs.symm.trans hf

theorem enroll_of_none {step : Step} (h : founder step.session = none) :
    enroll founder step step.session = some ((step.request.shared.bind founder).getD step.session) := by
  rw [enroll, if_pos h, Function.update_self]

theorem enroll_of_ne {step : Step} {session : Int} (h : session ≠ step.session) :
    enroll founder step session = founder session := by
  unfold enroll
  split
  · exact Function.update_of_ne h ..
  · rfl

theorem enroll_of_some {step : Step} {session f : Int} (h : founder session = some f) :
    enroll founder step session = some f := by
  unfold enroll
  split
  · rename_i hnone
    rw [Function.update_of_ne (ne_of_none hnone h), h]
  · exact h

theorem exists_enroll (founder : Int → Option Int) (step : Step) :
    ∃ f, enroll founder step step.session = some f := by
  cases hs : founder step.session with
  | none => exact ⟨_, enroll_of_none hs⟩
  | some f => exact ⟨f, enroll_of_some hs⟩

theorem foldl_enroll_of_some (steps : List Step) {session f : Int} (h : founder session = some f) :
    steps.foldl enroll founder session = some f := by
  induction steps generalizing founder with
  | nil => exact h
  | cons step steps ih => exact ih (enroll_of_some h)

/-! ### Seats -/

theorem eq_or_of_update {s f g session : Int} (h : Function.update founder s (some f) session = some g) :
    session = s ∧ g = f ∨ session ≠ s ∧ founder session = some g := by
  by_cases hsession : session = s
  · subst hsession
    rw [Function.update_self] at h
    exact .inl ⟨rfl, (Option.some.inj h).symm⟩
  · rw [Function.update_of_ne hsession] at h
    exact .inr ⟨hsession, h⟩

theorem none_of_update {s f session : Int} (h : Function.update founder s (some f) session = none) :
    founder session = none := by
  by_cases hsession : session = s
  · subst hsession
    simp at h
  · rwa [Function.update_of_ne hsession] at h

theorem IsClosed.update (h : IsClosed founder) {s f : Int} (hs : founder s = none)
    (hf : f = s ∨ founder f = some f) : IsClosed (Function.update founder s (some f)) := by
  intro session g hg
  rcases eq_or_of_update hg with ⟨-, rfl⟩ | ⟨-, hg⟩
  · rcases hf with rfl | hf
    · exact Function.update_self ..
    · rwa [Function.update_of_ne (ne_of_none hs hf)]
  · rw [Function.update_of_ne (ne_of_none hs (h session g hg))]
    exact h session g hg

theorem lookup_cons_seat {seats : List (Int × Nat)} {seat' : Int → Nat} (s f : Int)
    (h : ∀ session, seats.lookup session = (founder session).map seat)
    (hseat : ∀ {session g}, founder session = some g → seat' g = seat g) (session : Int) :
    List.lookup session ((s, seat' f) :: seats) =
      (Function.update founder s (some f) session).map seat' := by
  rw [List.lookup_cons]
  by_cases hsession : session = s
  · subst hsession
    simp
  · rw [Function.update_of_ne hsession, beq_false_of_ne hsession, h]
    exact Option.map_congr fun g hg => (hseat hg).symm

namespace Seated

theorem empty : Seated .empty (fun _ => none) (fun _ => 0) fun _ => .initial where
  lookup := fun _ => rfl
  isClosed := nofun
  seat_lt := nofun
  seat_inj := nofun
  environment := nofun
  initial := fun _ => rfl

/-- A session that shares takes the seat of its founder. -/
theorem join (h : Seated ws founder seat store) {s f : Int} (hs : founder s = none)
    (hf : founder f = some f) : Seated { ws with seats := (s, seat f) :: ws.seats }
      (Function.update founder s (some f)) seat store := by
  have hfounder : ∀ {g}, Function.update founder s (some f) g = some g → founder g = some g := by
    intro g hg
    rcases eq_or_of_update hg with ⟨rfl, rfl⟩ | ⟨-, hg⟩
    · exact hf
    · exact hg
  exact {
    lookup := lookup_cons_seat s f h.lookup fun _ => rfl
    isClosed := h.isClosed.update hs (.inr hf)
    seat_lt := fun hg => h.seat_lt (hfounder hg)
    seat_inj := fun hg hg' => h.seat_inj (hfounder hg) (hfounder hg')
    environment := fun hg => h.environment (hfounder hg)
    initial := fun hg => h.initial (none_of_update hg) }

/-- A session that shares with none has a new seat. -/
theorem found (h : Seated ws founder seat store) {s : Int} (hs : founder s = none) :
    Seated ⟨ws.environments ++ [.initial], (s, ws.environments.length) :: ws.seats⟩
      (Function.update founder s (some s)) (Function.update seat s ws.environments.length) store := by
  have hseat : ∀ {session g}, founder session = some g →
      Function.update seat s ws.environments.length g = seat g := fun hg =>
    Function.update_of_ne (ne_of_none hs (h.isClosed _ _ hg)) ..
  have hnew : Function.update seat s ws.environments.length s = ws.environments.length :=
    Function.update_self ..
  have hfounder : ∀ {g}, Function.update founder s (some s) g = some g → g = s ∨ founder g = some g :=
    fun hg => (eq_or_of_update hg).imp And.left And.right
  exact {
    lookup := by
      have hlookup := lookup_cons_seat s s h.lookup hseat
      rwa [hnew] at hlookup
    isClosed := h.isClosed.update hs (.inl rfl)
    seat_lt := fun {g} hg => by
      rw [List.length_append, List.length_singleton]
      rcases hfounder hg with rfl | hg
      · rw [hnew]
        exact Nat.lt_succ_self _
      · rw [hseat hg]
        exact Nat.lt_succ_of_lt (h.seat_lt hg)
    seat_inj := fun {g g'} hg hg' heq => by
      rcases hfounder hg with hgs | hg <;> rcases hfounder hg' with hgs' | hg'
      · rw [hgs, hgs']
      · rw [hgs, hnew, hseat hg'] at heq
        exact absurd heq (Nat.ne_of_gt (h.seat_lt hg'))
      · rw [hgs', hnew, hseat hg] at heq
        exact absurd heq (Nat.ne_of_lt (h.seat_lt hg))
      · rw [hseat hg, hseat hg'] at heq
        exact h.seat_inj hg hg' heq
    environment := fun {g} hg => by
      rcases hfounder hg with rfl | hg
      · rw [hnew, h.initial hs]
        simp [Workspace.environment]
      · have hold := h.environment hg
        rw [hseat hg, ← hold]
        simp [Workspace.environment, List.getElem?_append_left (h.seat_lt hg)]
    initial := fun hg => h.initial (none_of_update hg) }

theorem enter (h : Seated ws founder seat store) (step : Step) : ∃ seat' f,
    enroll founder step step.session = some f ∧ (ws.enter step.session step.request.shared).2 = seat' f ∧
    Seated (ws.enter step.session step.request.shared).1 (enroll founder step) seat' store := by
  have hseats : (step.request.shared.bind fun other => ws.seats.lookup other) =
      (step.request.shared.bind founder).map seat := by
    cases step.request.shared with
    | none => rfl
    | some other => exact h.lookup other
  cases hs : founder step.session with
  | some f =>
    have henroll : enroll founder step = founder := by simp [enroll, hs]
    have henter : ws.enter step.session step.request.shared = (ws, seat f) := by
      simp [Workspace.enter, h.lookup, hs]
    rw [henroll, henter]
    exact ⟨seat, f, hs, rfl, h⟩
  | none =>
    have hunseated : ws.seats.lookup step.session = none := by rw [h.lookup, hs, Option.map_none]
    cases hshared : step.request.shared.bind founder with
    | some f =>
      have henroll : enroll founder step = Function.update founder step.session (some f) := by
        simp [enroll, hs, hshared]
      have henter : ws.enter step.session step.request.shared =
          ({ ws with seats := (step.session, seat f) :: ws.seats }, seat f) := by
        rw [Workspace.enter, hunseated, hseats, hshared]
        rfl
      obtain ⟨other, -, hother⟩ := Option.bind_eq_some_iff.1 hshared
      rw [henroll, henter]
      exact ⟨seat, f, Function.update_self .., rfl, h.join hs (h.isClosed _ _ hother)⟩
    | none =>
      have henroll : enroll founder step = Function.update founder step.session (some step.session) := by
        simp [enroll, hs, hshared]
      have henter : ws.enter step.session step.request.shared =
          (⟨ws.environments ++ [.initial], (step.session, ws.environments.length) :: ws.seats⟩,
            ws.environments.length) := by
        rw [Workspace.enter, hunseated, hseats, hshared]
        rfl
      rw [henroll, henter]
      exact ⟨_, step.session, Function.update_self .., by simp, h.found hs⟩

/-- A founder's environment changes, and those of the other founders stay. -/
theorem set (h : Seated ws founder seat store) {f : Int} (hf : founder f = some f) (env : Environment) :
    Seated { ws with environments := ws.environments.set (seat f) env } founder seat
      (Function.update store f env) where
  lookup := h.lookup
  isClosed := h.isClosed
  seat_lt := fun hg => by simpa using h.seat_lt hg
  seat_inj := h.seat_inj
  environment := by
    intro g hg
    unfold Workspace.environment
    by_cases hgf : g = f
    · subst hgf
      rw [Function.update_self, List.getD_eq_getElem?_getD, List.getElem?_set_self (h.seat_lt hg)]
      rfl
    · have hne : seat f ≠ seat g := fun heq => hgf (h.seat_inj hg hf heq.symm)
      rw [Function.update_of_ne hgf, List.getD_eq_getElem?_getD, List.getElem?_set_ne hne,
        ← List.getD_eq_getElem?_getD]
      exact h.environment hg
  initial := by
    intro g hg
    rw [Function.update_of_ne (ne_of_none hg hf).symm]
    exact h.initial hg

theorem answer (h : Seated ws founder seat store) (mode : Mode) (step : Step) : ∃ seat' f,
    let answered := ws.answer mode step.session step.request
    enroll founder step step.session = some f ∧
    (answered.1, answered.2.1) = step.request.answer mode (store f) ∧
    Seated answered.2.2 (enroll founder step) seat' (Function.update store f answered.2.1) := by
  obtain ⟨seat', f, hf, hseat, hentered⟩ := h.enter step
  have hfounder := hentered.isClosed _ _ hf
  have hstore := hentered.environment hfounder
  refine ⟨seat', f, hf, ?_, ?_⟩
  · simp only [Workspace.answer, hseat, hstore]
  · simp only [Workspace.answer, hseat, hstore]
    exact hentered.set hfounder _

theorem after (h : Seated ws founder seat store) (mode : Mode) (steps : List Step) : ∃ seat' store',
    Seated (ws.after mode steps) (steps.foldl enroll founder) seat' store' := by
  induction steps generalizing ws founder seat store with
  | nil => exact ⟨seat, store, h⟩
  | cons step steps ih =>
    obtain ⟨_, _, -, -, hanswered⟩ := h.answer mode step
    exact ih hanswered

theorem lookup_eq_iff (h : Seated ws founder seat store) {s t : Int} :
    ws.seats.lookup s = ws.seats.lookup t ↔ founder s = founder t := by
  rw [h.lookup, h.lookup]
  constructor
  · intro heq
    cases hs : founder s with
    | none =>
      rw [hs] at heq
      exact (Option.map_eq_none_iff.1 heq.symm).symm
    | some f =>
      rw [hs] at heq
      obtain ⟨g, hg, hseat⟩ := Option.map_eq_some_iff.1 heq.symm
      rw [hg, h.seat_inj (h.isClosed _ _ hg) (h.isClosed _ _ hs) hseat]
  · exact congrArg _

end Seated

/-- Sessions have the same seat if and only if they have the same founder. -/
theorem seat_eq_iff (mode : Mode) (steps : List Step) (s t : Int) :
    (empty.after mode steps).seats.lookup s = (empty.after mode steps).seats.lookup t ↔
      founders steps s = founders steps t := by
  obtain ⟨_, _, hseated⟩ := Seated.empty.after mode steps
  exact hseated.lookup_eq_iff

/-! ### Groups -/

/-- Whether the step is one of a session with the founder `f`. -/
def isOwn (founder : Int → Option Int) (f : Int) (step : Step) : Bool :=
  founder step.session = some f

theorem isOwn_iff {f : Int} {step : Step} :
    isOwn founder f step = true ↔ founder step.session = some f := by
  simp [isOwn]

/-- A step is later one of the founder that its session has now. -/
theorem isOwn_foldl_enroll_iff (f : Int) (steps : List Step) {step : Step} {g : Int}
    (hg : enroll founder step step.session = some g) :
    isOwn (steps.foldl enroll (enroll founder step)) f step = true ↔ g = f := by
  rw [isOwn_iff, foldl_enroll_of_some steps hg, Option.some_inj]

-- By induction on the steps. Each keeps the seats; it changes the environment of its founder, and that
-- is the one that the induction follows or another.
theorem serve_own (mode : Mode) (f : Int) (steps : List Step) (h : Seated ws founder seat store) :
    (serve mode steps ws).filter (isOwn (steps.foldl enroll founder) f ·.1) =
      (steps.filter (isOwn (steps.foldl enroll founder) f)).zip
        (Request.answers mode ((steps.filter (isOwn (steps.foldl enroll founder) f)).map (·.request))
          (store f)) := by
  induction steps generalizing ws founder seat store with
  | nil => rfl
  | cons step steps ih =>
    obtain ⟨seat', g, hg, hanswer, hanswered⟩ := h.answer mode step
    have hrest := ih hanswered
    have hstep := isOwn_foldl_enroll_iff f steps hg
    rw [List.foldl_cons, serve, List.filter_cons, List.filter_cons]
    by_cases hgf : g = f
    · have hown := hstep.2 hgf
      subst hgf
      rw [Function.update_self] at hrest
      rw [if_pos hown, if_pos hown, hrest, List.map_cons, Request.answers, ← hanswer]
      rfl
    · have hother := mt hstep.1 hgf
      rw [Function.update_of_ne (Ne.symm hgf)] at hrest
      rw [if_neg hother, if_neg hother, hrest]

/-- `alone` has the founder `f`, for the sessions that have it in `founder`, and no other. -/
def Restricts (f : Int) (founder alone : Int → Option Int) : Prop :=
  ∀ session g, alone session = some g ↔ g = f ∧ founder session = some f

namespace Restricts
variable {alone : Int → Option Int} {f : Int} {step : Step}

protected theorem none (h : Restricts f founder alone) {session : Int} (hs : founder session = none) :
    alone session = none := by
  cases ha : alone session with
  | none => rfl
  | some g => cases hs.symm.trans ((h session g).1 ha).2

theorem enroll_own (h : Restricts f founder alone) (hf : enroll founder step step.session = some f) :
    Restricts f (enroll founder step) (enroll alone step) := by
  have halone : enroll alone step step.session = some f := by
    cases hs : founder step.session with
    | some g =>
      rw [enroll_of_some hs] at hf
      cases hf
      exact enroll_of_some ((h _ _).2 ⟨rfl, hs⟩)
    | none =>
      rw [enroll_of_none hs] at hf
      rw [enroll_of_none (h.none hs)]
      cases hshared : step.request.shared with
      | none => simpa [hshared] using hf
      | some other =>
        rw [hshared, Option.bind_some] at hf
        rw [Option.bind_some]
        cases hother : founder other with
        | none => rwa [h.none hother, ← hother]
        | some g =>
          rw [hother, Option.getD_some] at hf
          cases hf
          rw [(h other f).2 ⟨rfl, hother⟩, Option.getD_some]
  intro session g
  by_cases hsession : session = step.session
  · rw [hsession, halone, hf]
    simp [eq_comm]
  · rw [enroll_of_ne hsession, enroll_of_ne hsession]
    exact h session g

theorem enroll_other {g : Int} (h : Restricts f founder alone)
    (hg : enroll founder step step.session = some g) (hgf : g ≠ f) :
    Restricts f (enroll founder step) alone := by
  intro session g'
  rw [h session g']
  by_cases hsession : session = step.session
  · have hnot : founder step.session ≠ some f := fun hf =>
      hgf (Option.some.inj (hg.symm.trans (enroll_of_some hf)))
    rw [hsession, hg]
    simp [hnot, hgf]
  · rw [enroll_of_ne hsession]

theorem foldl_enroll (h : Restricts f founder alone) (steps : List Step) :
    Restricts f (steps.foldl enroll founder)
      ((steps.filter (isOwn (steps.foldl enroll founder) f)).foldl enroll alone) := by
  induction steps generalizing founder alone with
  | nil => exact h
  | cons step steps ih =>
    obtain ⟨g, hg⟩ := exists_enroll founder step
    have hstep := isOwn_foldl_enroll_iff f steps hg
    rw [List.foldl_cons]
    by_cases hgf : g = f
    · rw [List.filter_cons_of_pos (hstep.2 hgf), List.foldl_cons]
      exact ih (h.enroll_own (hgf ▸ hg))
    · rw [List.filter_cons_of_neg (mt hstep.1 hgf)]
      exact ih (h.enroll_other hg hgf)

end Restricts

/-- The steps of a group are answered, and leave its environment, as they are and do without the steps of
the other groups, and as the requests to one session in the same order. -/
theorem serve_isolated (mode : Mode) (steps : List Step) (f : Int) :
    let own := steps.filter (isOwn (founders steps) f)
    (serve mode steps .empty).filter (isOwn (founders steps) f ·.1) = serve mode own .empty ∧
      serve mode own .empty = own.zip (Request.answers mode (own.map (·.request)) .initial) := by
  intro own
  have hrestricts : Restricts f (founders steps) (founders own) :=
    Restricts.foldl_enroll (fun _ _ => by simp) steps
  have hown : ∀ step ∈ own, isOwn (founders own) f step = true := by
    intro step hstep
    have hfounder := isOwn_iff.1 (List.mem_filter.1 hstep).2
    exact isOwn_iff.2 ((hrestricts step.session f).2 ⟨rfl, hfounder⟩)
  have hserved : (serve mode own .empty).filter (isOwn (founders own) f ·.1) = serve mode own .empty := by
    refine List.filter_eq_self.2 fun answered hanswered => hown answered.1 ?_
    rw [← map_fst_serve mode own .empty]
    exact List.mem_map_of_mem hanswered
  have halone : serve mode own .empty =
      own.zip (Request.answers mode (own.map (·.request)) .initial) := by
    have hfilter : own.filter (isOwn (own.foldl enroll fun _ => none) f) = own :=
      List.filter_eq_self.2 hown
    have hzip := serve_own mode f own .empty
    rw [hfilter] at hzip
    exact hserved.symm.trans hzip
  exact ⟨(serve_own mode f steps .empty).trans halone.symm, halone⟩

end Workspace
end SnapLisp
