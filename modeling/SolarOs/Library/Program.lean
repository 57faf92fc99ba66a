import SolarOs.Library.Machine

/-! Programs over a shared object: a program calls one operation after another and
computes between the calls. Programs run alone, one after another, or take turns. -/

inductive Program (Op : Type → Type) (α : Type) : Type 1 where
  | done (result : α)
  | call {β : Type} (op : Op β) (next : β → Program Op α)

namespace Program

variable {Op : Type → Type} {α β : Type}

def bind : Program Op α → (α → Program Op β) → Program Op β
  | .done result, f => f result
  | .call op next, f => .call op fun reply => (next reply).bind f

instance : Monad (Program Op) where
  pure := .done
  bind := bind

def invoke (op : Op α) : Program Op α := .call op .done

variable {p : Program Op α} {f : α → Program Op β} {op : Op α}

def Only (some : {β : Type} → Op β → Prop) : Program Op α → Prop
  | .done _ => True
  | .call op next => some op ∧ ∀ reply, Only some (next reply)

theorem Only.imp {some some' : {β : Type} → Op β → Prop} (hp : Only some p)
    (weaker : ∀ {β : Type} (op : Op β), some op → some' op) : Only some' p := by
  induction p with
  | done result => trivial
  | call op next ih => exact ⟨weaker op hp.1, fun reply => ih reply (hp.2 reply)⟩

theorem Only.bind {some : {β : Type} → Op β → Prop}
    (hp : Only some p) (hf : ∀ result, Only some (f result)) : Only some (p >>= f) := by
  induction p with
  | done result => exact hf result
  | call op next ih => exact ⟨hp.1, fun reply => ih reply (hp.2 reply)⟩

theorem Only.invoke_bind {some : {β : Type} → Op β → Prop} (hop : some op) (hf : ∀ reply, Only some (f reply)) :
    Only some (invoke op >>= f : Program Op β) := ⟨hop, hf⟩

def Guarded (may : {β : Type} → Op β → Prop) (expects : {β : Type} → Op β → β → Prop) :
    Program Op α → Prop
  | .done _ => True
  | .call op next => may op ∧ ∀ reply, expects op reply → Guarded may expects (next reply)

variable {may : {β : Type} → Op β → Prop} {expects : {β : Type} → Op β → β → Prop}

theorem Guarded.bind (hp : Guarded may expects p)
    (hf : ∀ result, Guarded may expects (f result)) : Guarded may expects (p >>= f) := by
  induction p with
  | done result => exact hf result
  | call op next ih => exact ⟨hp.1, fun reply expected => ih reply (hp.2 reply expected)⟩

theorem Guarded.invoke_bind (hop : may op) (hf : ∀ reply, expects op reply → Guarded may expects (f reply)) :
    Guarded may expects (invoke op >>= f) := ⟨hop, hf⟩

section Alone

variable {S E : Type} (act : {β : Type} → Op β → S → E → S × β)

def finish : Program Op α → S → (Nat → E) → S × α
  | .done result, s, _ => (s, result)
  | .call op next, s, env =>
    finish (next (act op s (env 0)).2) (act op s (env 0)).1 fun n => env (n + 1)

/-- The program is cut off after `n` operations; the next one still meets `last`. -/
def cut (e last : E) : Program Op α → Nat → S → S
  | .done _, _, s => s
  | .call op _, 0, s => (act op s last).1
  | .call op next, n + 1, s => cut e last (next (act op s e).2) n (act op s e).1

/-- Wherever the program is cut off, what it leaves is `good`. -/
def EveryCut (e : E) (lasts : E → Prop) (good : S → Prop) (p : Program Op α) (s : S) : Prop :=
  ∀ last, lasts last → ∀ n, good (cut act e last p n s)

def Throughout (e : E) (lasts : E → Prop) (good : S → Prop) : Program Op α → S → Prop
  | .done _, s => good s
  | .call op next, s =>
    (∀ last, lasts last → good (act op s last).1) ∧
      Throughout e lasts good (next (act op s e).2) (act op s e).1

/-- The run is stopped after `n` operations. -/
def stop : Program Op α → (Nat → E) → Nat → S → S
  | .done _, _, _, s => s
  | .call _ _, _, 0, s => s
  | .call op next, env, n + 1, s =>
    stop (next (act op s (env 0)).2) (fun k => env (k + 1)) n (act op s (env 0)).1

/-- Whatever the program meets, it passes through good states only, and what it ends with is
as the last predicate says. -/
def Passes (good : S → Prop) (post : α → S → Prop) : Program Op α → S → Prop
  | .done result, s => good s ∧ post result s
  | .call op next, s => good s ∧ ∀ e, Passes good post (next (act op s e).2) (act op s e).1

def Meets (cond : {β : Type} → Op β → S → E → Prop) : Program Op α → S → (Nat → E) → Prop
  | .done _, _, _ => True
  | .call op next, s, env =>
    cond op s (env 0) ∧
      Meets cond (next (act op s (env 0)).2) (act op s (env 0)).1 fun n => env (n + 1)

def decideMeets (cond : {β : Type} → Op β → S → E → Prop)
    (decide : {β : Type} → (op : Op β) → (s : S) → (e : E) → Decidable (cond op s e)) :
    (p : Program Op α) → (s : S) → (env : Nat → E) → Decidable (Meets act cond p s env)
  | .done _, _, _ => .isTrue trivial
  | .call op next, s, env =>
    have := decide op s (env 0)
    have := decideMeets cond decide (next (act op s (env 0)).2) (act op s (env 0)).1 fun n => env (n + 1)
    inferInstanceAs (Decidable (_ ∧ _))

def Keeps (cond : {β : Type} → Op β → S → E → Prop) (Inv : S → Prop) : Prop :=
  ∀ {β : Type} (op : Op β) (s : S) (e : E), Inv s → cond op s e → Inv (act op s e).1

def watch {G : Type} (note : G → S → S → G) {β : Type} (op : Op β) (w : S × G) (e : E) :
    (S × G) × β :=
  (((act op w.1 e).1, note w.2 w.1 (act op w.1 e).1), (act op w.1 e).2)

variable {act} {cond : {β : Type} → Op β → S → E → Prop} {P : S → Prop} {s : S}

theorem finish_keeps (keeps : Keeps act cond P) {env : Nat → E}
    (hs : P s) (h : Meets act cond p s env) : P (finish act p s env).1 := by
  induction p generalizing s env with
  | done result => exact hs
  | call op next ih => exact ih _ (keeps op s (env 0) hs h.1) h.2

theorem finish_invoke_bind (op : Op α) (f : α → Program Op β) (s : S) (env : Nat → E) :
    finish act (invoke op >>= f) s env =
      finish act (f (act op s (env 0)).2) (act op s (env 0)).1 fun n => env (n + 1) := rfl

theorem finish_bind (p : Program Op α) (f : α → Program Op β) (s : S) (env : Nat → E) :
    ∃ later, finish act (p >>= f) s env =
      finish act (f (finish act p s env).2) (finish act p s env).1 later := by
  induction p generalizing s env with
  | done result => exact ⟨env, rfl⟩
  | call op next ih => exact ih _ _ _

theorem meets_bind (p : Program Op α) (f : α → Program Op β) (s : S) (env : Nat → E) :
    ∃ later, finish act (p >>= f) s env =
        finish act (f (finish act p s env).2) (finish act p s env).1 later ∧
      ∀ cond : {β : Type} → Op β → S → E → Prop, Meets act cond (p >>= f) s env ↔
        Meets act cond p s env ∧
          Meets act cond (f (finish act p s env).2) (finish act p s env).1 later := by
  induction p generalizing s env with
  | done result => exact ⟨env, rfl, fun cond => (and_iff_right trivial).symm⟩
  | call op next ih =>
    obtain ⟨later, ends, parts⟩ := ih (act op s (env 0)).2 (act op s (env 0)).1 fun n => env (n + 1)
    refine ⟨later, ends, fun cond => ?_⟩
    exact (and_congr_right' (parts cond)).trans and_assoc.symm

theorem finish_bind_const (p : Program Op α) (f : α → Program Op β) (s : S) (e : E) :
    finish act (p >>= f) s (fun _ => e) =
      finish act (f (finish act p s fun _ => e).2) (finish act p s fun _ => e).1 fun _ => e := by
  induction p generalizing s with
  | done result => rfl
  | call op next ih => exact ih _ _

theorem finish_congr {env env' : Nat → E} (p : Program Op α) (s : S)
    (h : ∀ (n : Nat) {β : Type} (op : Op β) (s : S), act op s (env n) = act op s (env' n)) :
    finish act p s env = finish act p s env' := by
  induction p generalizing s env env' with
  | done result => rfl
  | call op next ih =>
    show finish act (next (act op s (env 0)).2) (act op s (env 0)).1 _ =
      finish act (next (act op s (env' 0)).2) (act op s (env' 0)).1 _
    rw [h 0 op s]
    exact ih _ _ fun n => h (n + 1)

section Cut

variable {e : E} {lasts : E → Prop} {good : S → Prop}

theorem everyCut_iff (some : ∃ last, lasts last) : EveryCut act e lasts good p s ↔ Throughout act e lasts good p s := by
  induction p generalizing s with
  | done result =>
    obtain ⟨last, hlast⟩ := some
    exact ⟨fun h => h last hlast 0, fun h _ _ _ => h⟩
  | call op next ih =>
    constructor
    · intro h
      exact ⟨fun last hlast => h last hlast 0, (ih _).mp fun last hlast n => h last hlast (n + 1)⟩
    · intro h last hlast n
      cases n with
      | zero => exact h.1 last hlast
      | succ n => exact (ih _).mpr h.2 last hlast n

theorem Throughout.bind (hp : Throughout act e lasts good p s)
    (hf : Throughout act e lasts good (f (finish act p s fun _ => e).2) (finish act p s fun _ => e).1) :
    Throughout act e lasts good (p >>= f) s := by
  induction p generalizing s with
  | done result => exact hf
  | call op next ih => exact ⟨hp.1, ih _ hp.2 hf⟩

theorem Throughout.after (h : Throughout act e lasts good (p >>= f) s) :
    Throughout act e lasts good (f (finish act p s fun _ => e).2) (finish act p s fun _ => e).1 := by
  induction p generalizing s with
  | done result => exact h
  | call op next ih => exact ih _ h.2

theorem throughout_bind_pure (quiet : ∃ result, f (finish act p s fun _ => e).2 = pure result) :
    Throughout act e lasts good (p >>= f) s ↔ Throughout act e lasts good p s := by
  induction p generalizing s with
  | done result =>
    obtain ⟨result', h⟩ := quiet
    show Throughout act e lasts good (f result) s ↔ _
    rw [show f result = _ from h]
    exact Iff.rfl
  | call op next ih => exact and_congr Iff.rfl (ih _ quiet)

end Cut

section Stop

variable {good : S → Prop} {post : α → S → Prop}

theorem Passes.start (h : Passes act good post p s) : good s := by
  cases p with
  | done result => exact h.1
  | call op next => exact h.1

theorem stop_iff [Nonempty E] : (∀ env n, good (stop act p env n s)) ↔ Passes act good (fun _ _ => True) p s := by
  obtain ⟨e⟩ := ‹Nonempty E›
  induction p generalizing s with
  | done result => exact ⟨fun h => ⟨h (fun _ => e) 0, trivial⟩, fun h _ _ => h.1⟩
  | call op next ih =>
    constructor
    · intro h
      refine ⟨h (fun _ => e) 0, fun e' => (ih _).mp fun env n => ?_⟩
      exact h (Nat.rec e' fun k _ => env k) (n + 1)
    · intro h env n
      cases n with
      | zero => exact h.1
      | succ n => exact (ih _).mpr (h.2 (env 0)) _ n

theorem Passes.bind {post : β → S → Prop}
    (h : Passes act good (fun result s => Passes act good post (f result) s) p s) :
    Passes act good post (p >>= f) s := by
  induction p generalizing s with
  | done result => exact h.2
  | call op next ih => exact ⟨h.1, fun e => ih _ (h.2 e)⟩

theorem Passes.invoke_bind {post : β → S → Prop} (here : good s)
    (later : ∀ e, Passes act good post (f (act op s e).2) (act op s e).1) :
    Passes act good post (invoke op >>= f) s := ⟨here, later⟩

theorem Passes.ends (h : Passes act good post p s) : Passes act good (fun result s => good s ∧ post result s) p s := by
  induction p generalizing s with
  | done result => exact ⟨h.1, h⟩
  | call op next ih => exact ⟨h.1, fun e => ih _ (h.2 e)⟩

theorem Passes.result (h : Passes act good post p s) (env : Nat → E) :
    good (finish act p s env).1 ∧ post (finish act p s env).2 (finish act p s env).1 := by
  induction p generalizing s env with
  | done result => exact h
  | call op next ih => exact ih _ (h.2 (env 0)) _

theorem Passes.widen {good' : S → Prop} (h : Passes act good post p s)
    (wider : ∀ s, good s → good' s) : Passes act good' post p s := by
  induction p generalizing s with
  | done result => exact ⟨wider _ h.1, h.2⟩
  | call op next ih => exact ⟨wider _ h.1, fun e => ih _ (h.2 e)⟩

theorem Passes.parts {post : β → S → Prop}
    (h : Passes act good post (p >>= f) s) : Passes act good (fun _ _ => True) p s := by
  induction p generalizing s with
  | done result => exact ⟨h.start, trivial⟩
  | call op next ih => exact ⟨h.1, fun e => ih _ (h.2 e)⟩

theorem Passes.after {post : β → S → Prop} (h : Passes act good post (p >>= f) s) (env : Nat → E) :
    Passes act good post (f (finish act p s env).2) (finish act p s env).1 := by
  induction p generalizing s env with
  | done result => exact h
  | call op next ih => exact ih _ (h.2 (env 0)) _

theorem Passes.imp {post' : α → S → Prop}
    (h : Passes act good post p s) (weaker : ∀ result s, post result s → post' result s) :
    Passes act good post' p s := by
  induction p generalizing s with
  | done result => exact ⟨h.1, weaker _ _ h.2⟩
  | call op next ih => exact ⟨h.1, fun e => ih _ (h.2 e)⟩

theorem Passes.except_bind {ε : Type} {post : Except ε β → S → Prop} {p : ExceptT ε (Program Op) α}
    {f : α → ExceptT ε (Program Op) β} (first : Passes act good (fun result s => match result with
      | .error err => good s ∧ post (.error err) s
      | .ok a => Passes act good post (f a).run s) p.run s) : Passes act good post (p >>= f).run s := by
  refine Passes.bind (first.imp fun result s next => ?_)
  cases result with
  | error err => exact next
  | ok a => exact next

end Stop

theorem finish_watch {G : Type} (note : G → S → S → G) (p : Program Op α) (s : S) (g : G)
    (env : Nat → E) : (finish (watch act note) p (s, g) env).1.1 = (finish act p s env).1 ∧
      (finish (watch act note) p (s, g) env).2 = (finish act p s env).2 := by
  induction p generalizing s g env with
  | done result => exact ⟨rfl, rfl⟩
  | call op next ih => exact ih _ _ _ _

theorem meets_watch {G : Type} (note : G → S → S → G) (g : G) {env : Nat → E} (h : Meets act cond p s env) :
    Meets (watch act note) (fun op w e => cond op w.1 e) p (s, g) env := by
  induction p generalizing s g env with
  | done result => trivial
  | call op next ih => exact ⟨h.1, ih _ _ h.2⟩

theorem finish_only {some : {β : Type} → Op β → Prop} (only : Only some p)
    (keep : ∀ {β : Type} (op : Op β) (s : S) (e : E), some op → P s → P (act op s e).1)
    (hs : P s) (env : Nat → E) : P (finish act p s env).1 := by
  induction p generalizing s env with
  | done result => exact hs
  | call op next ih => exact ih _ (only.2 _) (keep op s _ only.1 hs) _

end Alone

structure Pool (Op : Type → Type) (S α : Type) : Type 1 where
  state : S
  threads : List (Program Op α)

def ended : Program Op α → Bool
  | .done _ => true
  | .call .. => false

def Pool.quiet {S : Type} (pool : Pool Op S α) : Bool := pool.threads.all ended

/-- What happens next: a call is made, or a started program gets its turn. -/
inductive Turn (C E : Type) where
  | start (c : C)
  | step (thread : Nat) (e : E)

namespace Pool

variable {S E C : Type} (act : {β : Type} → Op β → S → E → S × β)
  (enabled : {β : Type} → Op β → S → Prop) [∀ {β : Type} (op : Op β) (s : S), Decidable (enabled op s)]
  (body : C → Program Op α)

/-- A program whose operation is not enabled waits. -/
def turn (pool : Pool Op S α) : Turn C E → Pool Op S α
  | .start c => { pool with threads := pool.threads ++ [body c] }
  | .step i e =>
    match pool.threads[i]? with
    | some (.call op next) =>
      if enabled op pool.state then
        { state := (act op pool.state e).1
          threads := pool.threads.set i (next (act op pool.state e).2) }
      else pool
    | _ => pool

def Allowed (cond : {β : Type} → Op β → S → E → Prop) (pool : Pool Op S α) : Turn C E → Prop
  | .start _ => True
  | .step i e =>
    match pool.threads[i]? with
    | some (.call op _) => enabled op pool.state → cond op pool.state e
    | _ => True

/-- Whether a turn is allowed can be decided when the condition can. -/
def decideAllowed (cond : {β : Type} → Op β → S → E → Prop)
    (decide : {β : Type} → (op : Op β) → (s : S) → (e : E) → Decidable (cond op s e))
    (pool : Pool Op S α) : (t : Turn C E) → Decidable (Allowed enabled cond pool t)
  | .start _ => .isTrue trivial
  | .step i e => by
    dsimp only [Allowed]
    exact match pool.threads[i]? with
      | some (.call op _) =>
        have := decide op pool.state
        inferInstanceAs (Decidable (_ → _))
      | some (.done _) => .isTrue trivial
      | none => .isTrue trivial

variable {act enabled body} {cond : {β : Type} → Op β → S → E → Prop} {P : S → Prop}

theorem turn_keeps (keeps : Keeps act cond P) (pool : Pool Op S α) (t : Turn C E)
    (h : P pool.state) (ht : Allowed enabled cond pool t) : P (turn act enabled body pool t).state := by
  cases t with
  | start c => exact h
  | step i e =>
    cases hi : pool.threads[i]? with
    | none => simpa only [turn, hi] using h
    | some p =>
      cases p with
      | done result => simpa only [turn, hi] using h
      | call op next =>
        simp only [Allowed, hi] at ht
        simp only [turn, hi]
        split
        · rename_i can
          exact keeps op pool.state e h (ht can)
        · exact h

theorem turn_always (keeps : ∀ {β : Type} (op : Op β) (s : S) (e : E), P s → P (act op s e).1)
    (pool : Pool Op S α) (t : Turn C E) (h : P pool.state) : P (turn act enabled body pool t).state := by
  have any : Keeps act (fun _ _ _ => True) P := fun op s e hs _ => keeps op s e hs
  refine turn_keeps any pool t h ?_
  unfold Allowed
  split
  · trivial
  · split <;> simp

theorem turn_exact {Inv Good : S → Prop} (exact : ∀ {β : Type} (op : Op β) (s : S) (e : E), Inv s → Good s →
      (Good (act op s e).1 ↔ cond op s e)) (pool : Pool Op S α) (t : Turn C E)
    (hinv : Inv pool.state) (hgood : Good pool.state) :
    Good (turn act enabled body pool t).state ↔ Allowed enabled cond pool t := by
  cases t with
  | start c => exact iff_of_true hgood trivial
  | step i e =>
    cases hi : pool.threads[i]? with
    | none => simpa only [turn, Allowed, hi, iff_true] using hgood
    | some p =>
      cases p with
      | done result => simpa only [turn, Allowed, hi, iff_true] using hgood
      | call op next =>
        simp only [turn, Allowed, hi]
        split
        · rename_i can
          exact (exact op pool.state e hinv hgood).trans ⟨fun h _ => h, fun h => h can⟩
        · rename_i cannot
          exact iff_of_true hgood fun can => absurd can cannot

/-- Programs that guard each other: the operations they may make keep the invariant and
give the replies that the programs expect. -/
structure Safe (act : {β : Type} → Op β → S → E → S × β) (may : {β : Type} → Op β → Prop)
    (expects : {β : Type} → Op β → β → Prop) (cond : {β : Type} → Op β → S → E → Prop)
    (P : S → Prop) : Prop where
  keeps : ∀ {β : Type} (op : Op β) (s : S) (e : E), P s → may op → cond op s e → P (act op s e).1
  replies : ∀ {β : Type} (op : Op β) (s : S) (e : E), P s → may op → expects op (act op s e).2

def Secure (may : {β : Type} → Op β → Prop) (expects : {β : Type} → Op β → β → Prop) (P : S → Prop)
    (pool : Pool Op S α) : Prop :=
  P pool.state ∧ ∀ p ∈ pool.threads, Guarded may expects p

theorem turn_secure (safe : Safe act may expects cond P) (bodies : ∀ c, Guarded may expects (body c))
    (pool : Pool Op S α) (t : Turn C E) (h : Secure may expects P pool)
    (ht : Allowed enabled cond pool t) : Secure may expects P (turn act enabled body pool t) := by
  cases t with
  | start c =>
    refine ⟨h.1, ?_⟩
    intro p hp
    rcases List.mem_append.mp hp with old | new
    · exact h.2 p old
    · cases List.mem_singleton.mp new
      exact bodies c
  | step i e =>
    cases hi : pool.threads[i]? with
    | none => simpa only [turn, hi] using h
    | some p =>
      cases p with
      | done result => simpa only [turn, hi] using h
      | call op next =>
        obtain ⟨may, go⟩ := h.2 _ (List.mem_of_getElem? hi)
        simp only [Allowed, hi] at ht
        simp only [turn, hi]
        split
        · rename_i can
          refine ⟨safe.keeps op pool.state e h.1 may (ht can), ?_⟩
          intro q hq
          rcases List.mem_or_eq_of_mem_set hq with old | new
          · exact h.2 q old
          · rw [new]
            exact go _ (safe.replies op pool.state e h.1 may)
        · exact h

theorem run_secure (safe : Safe act may expects cond P) (bodies : ∀ c, Guarded may expects (body c))
    {pool : Pool Op S α} {turns : List (Turn C E)} (h : Secure may expects P pool)
    (ht : Machine.Admits (turn act enabled body) (Allowed enabled cond) pool turns) :
    Secure may expects P (Machine.run (turn act enabled body) pool turns) :=
  Machine.run_induct (turn_secure safe bodies) h ht

theorem run_first {pool : Pool Op S α} {c : C} {op : Op β} {next : β → Program Op α}
    (starts : body c = .call op next) (e : E) (can : enabled op pool.state) :
    Machine.run (turn act enabled body) pool [.start c, .step pool.threads.length e] =
      { state := (act op pool.state e).1
        threads := pool.threads ++ [next (act op pool.state e).2] } := by
  simp only [Machine.run_cons, Machine.run_nil, turn, starts, List.getElem?_concat_length, if_pos can]
  simp

theorem admits_first {pool : Pool Op S α} {c : C} {op : Op β} {next : β → Program Op α}
    (starts : body c = .call op next) (e : E) (h : cond op pool.state e) :
    Machine.Admits (turn act enabled body) (Allowed enabled cond) pool
      [.start c, .step pool.threads.length e] := by
  refine ⟨trivial, ?_, trivial⟩
  simp only [turn, starts, Allowed, List.getElem?_concat_length]
  exact fun _ => h

end Pool

end Program
