import SolarOs.Library.Program

/-! Programs that do not overlap: what a program keeps when it runs alone, a run keeps in
which no program enters while another one is under way. -/
namespace Program
open List

variable {Op : Type → Type} {α β S E C : Type} {act : {β : Type} → Op β → S → E → S × β}

variable (act) in
def Wp (Post : α → S → Prop) : Program Op α → S → Prop
  | .done result, s => Post result s
  | .call op next, s => ∀ e, Wp Post (next (act op s e).2) (act op s e).1

variable {p : Program Op α}

variable {s : S}

theorem Wp.bind {Mid : α → S → Prop} {Post : β → S → Prop} {f : α → Program Op β} (hp : Wp act Mid p s)
    (hf : ∀ result s, Mid result s → Wp act Post (f result) s) : Wp act Post (p >>= f) s := by
  induction p generalizing s with
  | done result => exact hf result s hp
  | call op next ih => exact fun e => ih _ (hp e)

theorem Wp.invoke_bind {Post : β → S → Prop} {op : Op α} {f : α → Program Op β}
    (h : ∀ e : E, ∃ s' reply, act op s e = (s', reply) ∧ Wp act Post (f reply) s') :
    Wp act Post (invoke op >>= f) s := by
  intro e
  obtain ⟨s', reply, acted, later⟩ := h e
  show Wp act Post (f (act op s e).2) (act op s e).1
  rw [acted]
  exact later

theorem Wp.mono {Post Post' : α → S → Prop} (hp : Wp act Post p s)
    (weaker : ∀ result s, Post result s → Post' result s) : Wp act Post' p s := by
  induction p generalizing s with
  | done result => exact weaker result s hp
  | call op next ih => exact fun e => ih _ (hp e)

theorem Wp.result {Post : α → S → Prop} (hp : Wp act Post p s) (env : Nat → E) :
    Post (finish act p s env).2 (finish act p s env).1 := by
  induction p generalizing s env with
  | done result => exact hp
  | call op next ih => exact ih _ (hp (env 0)) _

theorem Wp.of_only {some : {β : Type} → Op β → Prop} {P : S → Prop} (only : Only some p)
    (keeps : ∀ {β : Type} (op : Op β) (s : S) (e : E), some op → P s → P (act op s e).1) (hs : P s) :
    Wp act (fun _ => P) p s := by
  induction p generalizing s with
  | done result => exact hs
  | call op next ih => exact fun e => ih _ (only.2 _) (keeps op s e only.1 hs)

variable (entry : {β : Type} → Op β → Prop)

def Idle : Program Op α → Prop
  | .done _ => True
  | .call op _ => entry op

def Once : Program Op α → Prop
  | .done _ => True
  | .call _ next => ∀ reply, Only (fun op => ¬entry op) (next reply)

namespace Pool

variable {enabled : {β : Type} → Op β → S → Prop}
  [∀ {β : Type} (op : Op β) (s : S), Decidable (enabled op s)] {body : C → Program Op α} {P : S → Prop}

variable (act enabled) in
/-- A program enters only while no other one is under way, or it is turned away at once. -/
def Apart (pool : Pool Op S α) : Turn C E → Prop
  | .start _ => True
  | .step i e =>
    match pool.threads[i]? with
    | some (.call op next) => enabled op pool.state → entry op →
        (∀ (j : Nat) (p : Program Op α), j ≠ i → pool.threads[j]? = some p → Idle entry p) ∨
          ((act op pool.state e).1 = pool.state ∧ ended (next (act op pool.state e).2) = true)
    | _ => True

def decideIdle (decide : {β : Type} → (op : Op β) → Decidable (entry op)) :
    (p : Program Op α) → Decidable (Idle entry p)
  | .done _ => .isTrue trivial
  | .call op _ => decide op

variable {entry} in
theorem idle_others_iff {threads : List (Program Op α)} {i : Nat} :
    (∀ (j : Nat) (p : Program Op α), j ≠ i → threads[j]? = some p → Idle entry p) ↔
      ∀ j : Fin threads.length, j.val ≠ i → Idle entry threads[j] := by
  constructor
  · intro idle j other
    exact idle j _ other (getElem?_eq_getElem j.isLt)
  · intro idle j p other there
    obtain ⟨bound, rfl⟩ := List.getElem?_eq_some_iff.mp there
    exact idle ⟨j, bound⟩ other

variable (act enabled) in
/-- Whether a turn keeps programs apart can be decided when states can be compared. -/
def decideApart [DecidableEq S] (decide : {β : Type} → (op : Op β) → Decidable (entry op))
    (pool : Pool Op S α) : (t : Turn C E) → Decidable (Apart act entry enabled pool t)
  | .start _ => .isTrue trivial
  | .step i e => by
    dsimp only [Apart]
    exact match pool.threads[i]? with
      | some (.call op next) =>
        have := decide op
        have := fun p : Program Op α => decideIdle entry decide p
        have := decidable_of_iff' _ (@idle_others_iff _ _ entry pool.threads i)
        inferInstanceAs (Decidable (_ → _ → _ ∨ _))
      | some (.done _) => .isTrue trivial
      | none => .isTrue trivial

variable (act P) in
/-- The program is not under way, and keeps what holds between programs. -/
structure Rests (p : Program Op α) : Prop where
  idle : Idle entry p
  once : Once entry p
  keeps : ∀ s, P s → Wp act (fun _ => P) p s

variable (act P) in
def Single (pool : Pool Op S α) : Prop :=
  (P pool.state ∧ ∀ (j : Nat) (p : Program Op α), pool.threads[j]? = some p → Rests act entry P p) ∨
    ∃ (i : Nat) (p : Program Op α), pool.threads[i]? = some p ∧ Wp act (fun _ => P) p pool.state ∧
      Only (fun op => ¬entry op) p ∧
        ∀ (j : Nat) (q : Program Op α), j ≠ i → pool.threads[j]? = some q → Rests act entry P q

variable {entry}

theorem rests_of_ended (h : ended p = true) : Rests act entry P p := by
  cases p with
  | done result => exact ⟨trivial, trivial, fun _ good => good⟩
  | call op next => cases h

theorem single_of_set {threads : List (Program Op α)} {i : Nat} (bound : i < threads.length)
    (hp : Wp act (fun _ => P) p s) (only : Only (fun op => ¬entry op) p)
    (others : ∀ (j : Nat) (q : Program Op α), j ≠ i → threads[j]? = some q → Rests act entry P q) :
    Single act entry P { state := s, threads := threads.set i p } := by
  refine .inr ⟨i, p, by simp [bound], hp, only, fun j q other there => others j q other ?_⟩
  rwa [getElem?_set_ne (Ne.symm other)] at there

theorem turn_single (bodies : ∀ c, Rests act entry P (body c)) (pool : Pool Op S α) (t : Turn C E)
    (h : Single act entry P pool) (apart : Apart act entry enabled pool t) :
    Single act entry P (turn act enabled body pool t) := by
  cases t with
  | start c =>
    have rests : ∀ (j : Nat) (q : Program Op α), (pool.threads[j]? = some q → Rests act entry P q) →
        (pool.threads ++ [body c])[j]? = some q → Rests act entry P q := by
      intro j q old there
      rw [getElem?_append] at there
      split at there
      · exact old there
      · exact mem_singleton.mp (mem_of_getElem? there) ▸ bodies c
    rcases h with ⟨good, idle⟩ | ⟨i, p, hi, hp, only, others⟩
    · exact .inl ⟨good, fun j q => rests j q (idle j q)⟩
    · have bound := (List.getElem?_eq_some_iff.mp hi).1
      exact .inr ⟨i, p, by rw [turn, getElem?_append_left bound, hi], hp, only,
        fun j q other => rests j q (others j q other)⟩
  | step i e =>
    cases hi : pool.threads[i]? with
    | none => simpa only [turn, hi] using h
    | some p =>
      cases p with
      | done result => simpa only [turn, hi] using h
      | call op next =>
        have bound := (List.getElem?_eq_some_iff.mp hi).1
        simp only [Apart, hi] at apart
        simp only [turn, hi]
        split
        · rename_i can
          rcases h with ⟨good, idle⟩ | ⟨k, q, hk, hq, only, others⟩
          · have mine := idle i _ hi
            exact single_of_set bound (mine.keeps _ good e) (mine.once _) fun j q _ => idle j q
          · by_cases here : i = k
            · subst here
              rw [hi] at hk
              cases hk
              exact single_of_set bound (hq e) (only.2 _) others
            · have mine := others i _ here hi
              rcases apart can mine.idle with free | ⟨state, refused⟩
              · -- the program that was under way has come to its end
                cases q with
                | call op' next' => exact absurd (free k _ (Ne.symm here) hk) only.1
                | done result =>
                  refine single_of_set bound (mine.keeps _ hq e) (mine.once _) fun j q other there => ?_
                  by_cases last : j = k
                  · rw [last, hk] at there
                    cases there
                    exact rests_of_ended rfl
                  · exact others j q last there
              · refine .inr ⟨k, q, ?_, ?_, only, fun j q' other there => ?_⟩
                · rw [getElem?_set_ne here]
                  exact hk
                · exact state.symm ▸ hq
                · rw [getElem?_set] at there
                  split at there
                  · cases there
                    exact rests_of_ended refused
                  · exact others j q' other there
        · exact h

theorem run_single (bodies : ∀ c, Rests act entry P (body c)) {pool : Pool Op S α}
    {turns : List (Turn C E)} (h : Single act entry P pool)
    (apart : Machine.Admits (turn act enabled body) (Apart act entry enabled) pool turns) :
    Single act entry P (Machine.run (turn act enabled body) pool turns) :=
  Machine.run_induct (turn_single bodies) h apart

theorem Single.quiet {pool : Pool Op S α} (h : Single act entry P pool) (quiet : pool.quiet = true) : P pool.state := by
  rcases h with ⟨good, -⟩ | ⟨i, p, hi, hp, -⟩
  · exact good
  · have past := all_eq_true.mp quiet p (mem_of_getElem? hi)
    cases p with
    | done result => exact hp
    | call op next => cases past

end Pool

end Program
