import SolarOs.Library.Program
import Mathlib.Algebra.BigOperators.Group.List.Basic
import Mathlib.Algebra.Group.Prod
import Mathlib.Algebra.Order.Group.Multiset

/-! Programs that hold rights while they run. An operation takes rights from its program and
gives others back; the invariant of the shared state speaks of the rights of all programs
together. -/
namespace Program

variable {Op : Type → Type} {α β : Type} {R : Type*} [AddCommMonoid R]

/-- What an operation takes from its program, what it gives back for a reply, and which
replies it brings. -/
structure Deal (R : Type*) (β : Type) where
  takes : R
  gives : β → R
  brings : β → Prop

variable (deals : {β : Type} → Op β → Deal R β → Prop)

def Entitled (ends : α → R → Prop) : Program Op α → R → Prop
  | .done result, held => ends result held
  | .call op next, held => ∃ deal rest, deals op deal ∧ held = rest + deal.takes ∧
      ∀ reply, deal.brings reply → Entitled ends (next reply) (rest + deal.gives reply)

variable {deals} {ends : α → R → Prop} {held : R}

variable {next : β → Program Op α} {p : Program Op α} {programs : List (Program Op α)}

theorem Entitled.call {op : Op β} {deal : Deal R β} (h : deals op deal) (rest : R) (later : ∀ reply, deal.brings reply →
      Entitled deals ends (next reply) (rest + deal.gives reply)) :
    Entitled deals ends (.call op next) (rest + deal.takes) := ⟨deal, rest, h, rfl, later⟩

theorem Entitled.alone {op : Op β} {deal : Deal R β} (h : deals op deal)
    (later : ∀ reply, deal.brings reply → Entitled deals ends (next reply) (deal.gives reply)) :
    Entitled deals ends (.call op next) deal.takes := by
  have framed : Entitled deals ends (.call op next) (0 + deal.takes) :=
    .call h 0 fun reply brought => by
      rw [zero_add]
      exact later reply brought
  rwa [zero_add] at framed

theorem Entitled.freely {op : Op β} {brings : β → Prop} (h : deals op ⟨0, fun _ => 0, brings⟩)
    (later : ∀ reply, brings reply → Entitled deals ends (next reply) held) :
    Entitled deals ends (.call op next) held := by
  have framed : Entitled deals ends (.call op next) (held + 0) :=
    .call h held fun reply brought => by
      rw [add_zero]
      exact later reply brought
  rwa [add_zero] at framed

theorem Entitled.bind {after : β → R → Prop} {f : α → Program Op β} (hp : Entitled deals ends p held)
    (hf : ∀ result held, ends result held → Entitled deals after (f result) held) :
    Entitled deals after (p >>= f) held := by
  induction p generalizing held with
  | done result => exact hf result held hp
  | call op next ih =>
    obtain ⟨deal, rest, h, same, later⟩ := hp
    exact ⟨deal, rest, h, same, fun reply brought => ih reply (later reply brought)⟩

theorem Entitled.mono {ends' : α → R → Prop} (hp : Entitled deals ends p held)
    (weaker : ∀ result held, ends result held → ends' result held) : Entitled deals ends' p held := by
  induction p generalizing held with
  | done result => exact weaker result held hp
  | call op next ih =>
    obtain ⟨deal, rest, h, same, later⟩ := hp
    exact ⟨deal, rest, h, same, fun reply brought => ih reply (later reply brought)⟩

theorem Entitled.beside {R' : Type*} [AddCommMonoid R']
    {deals' : {β : Type} → Op β → Deal (R × R') β → Prop} {some : {β : Type} → Op β → Prop}
    (embed : ∀ {β : Type} (op : Op β) (deal : Deal R β), some op → deals op deal →
      deals' op ⟨(deal.takes, 0), fun reply => (deal.gives reply, 0), deal.brings⟩)
    (only : Only some p) (hp : Entitled deals ends p held) :
    Entitled deals' (fun result held => ∃ own, held = (own, 0) ∧ ends result own) p (held, 0) := by
  induction p generalizing held with
  | done result => exact ⟨held, rfl, hp⟩
  | call op next ih =>
    obtain ⟨deal, rest, h, rfl, later⟩ := hp
    refine ⟨_, (rest, 0), embed op deal only.1 h, by ext1 <;> simp, fun reply brought => ?_⟩
    have := ih reply (only.2 reply) (later reply brought)
    rwa [show (rest + deal.gives reply, (0 : R')) = (rest, 0) + (deal.gives reply, 0) by simp] at this

variable (deals ends)

def Share : List (Program Op α) → R → Prop
  | [], total => total = 0
  | p :: programs, total => ∃ held rest, total = rest + held ∧ Entitled deals ends p held ∧
      Share programs rest

variable {deals ends}

theorem Share.append {total : R} (h : Share deals ends programs total) (hp : Entitled deals ends p held) :
    Share deals ends (programs ++ [p]) (total + held) := by
  induction programs generalizing total with
  | nil => exact ⟨held, 0, by rw [h, add_comm], hp, rfl⟩
  | cons q programs ih =>
    obtain ⟨mine, rest, same, hq, others⟩ := h
    exact ⟨mine, rest + held, by rw [same, add_right_comm], hq, ih others⟩

theorem Share.take {total : R} (h : Share deals ends programs total) {i : Nat} (hi : programs[i]? = some p) :
    ∃ held rest, total = rest + held ∧ Entitled deals ends p held ∧
      ∀ p' held', Entitled deals ends p' held' → Share deals ends (programs.set i p') (rest + held') := by
  induction programs generalizing total i with
  | nil => cases hi
  | cons q programs ih =>
    obtain ⟨mine, rest, same, hq, others⟩ := h
    cases i with
    | zero =>
      cases hi
      exact ⟨mine, rest, same, hq, fun p' held' hp' => ⟨held', rest, rfl, hp', others⟩⟩
    | succ i =>
      obtain ⟨held, rest', same', hp, set⟩ := ih others hi
      refine ⟨held, rest' + mine, by rw [same, same', add_right_comm], hp, fun p' held' hp' => ?_⟩
      exact ⟨mine, rest' + held', add_right_comm _ _ _, hq, set p' held' hp'⟩

theorem Share.quiet {total : R} (h : Share deals (fun (_ : α) held => held = 0) programs total)
    (quiet : programs.all ended = true) : total = 0 := by
  induction programs generalizing total with
  | nil => exact h
  | cons p programs ih =>
    obtain ⟨mine, rest, same, hp, others⟩ := h
    rw [List.all_cons, Bool.and_eq_true] at quiet
    cases p with
    | done result =>
      have none : mine = 0 := hp
      rw [same, ih others quiet.2, none, add_zero]
    | call op next => cases quiet.1

namespace Pool

variable {S E C : Type} {act : {β : Type} → Op β → S → E → S × β}
  {enabled : {β : Type} → Op β → S → Prop}
  [∀ {β : Type} (op : Op β) (s : S), Decidable (enabled op s)] {body : C → Program Op α}
  {cond : {β : Type} → Op β → S → E → Prop} {Inv : S → R → Prop}

variable (act enabled cond deals Inv) in
/-- Every operation keeps its deals: with the rights that the others hold, the invariant
comes through, and the reply is one that was promised. -/
def Honours : Prop :=
  ∀ {β : Type} (op : Op β) (s : S) (e : E) (deal : Deal R β) (rest : R), deals op deal →
    Inv s (rest + deal.takes) → enabled op s → cond op s e →
      deal.brings (act op s e).2 ∧ Inv (act op s e).1 (rest + deal.gives (act op s e).2)

variable (deals ends Inv) in
def Backed (pool : Pool Op S α) : Prop :=
  ∃ total, Share deals ends pool.threads total ∧ Inv pool.state total

theorem turn_backed (honours : Honours deals act enabled cond Inv)
    (bodies : ∀ c, Entitled deals ends (body c) 0) (pool : Pool Op S α) (t : Turn C E)
    (h : Backed deals ends Inv pool) (ht : Allowed enabled cond pool t) :
    Backed deals ends Inv (turn act enabled body pool t) := by
  obtain ⟨total, share, inv⟩ := h
  cases t with
  | start c => exact ⟨total + 0, share.append (bodies c), by rwa [add_zero]⟩
  | step i e =>
    cases hi : pool.threads[i]? with
    | none => simpa only [turn, hi] using ⟨total, share, inv⟩
    | some p =>
      cases p with
      | done result => simpa only [turn, hi] using ⟨total, share, inv⟩
      | call op next =>
        simp only [Allowed, hi] at ht
        simp only [turn, hi]
        split
        · rename_i can
          obtain ⟨held, rest, same, ⟨deal, spare, hdeal, hheld, later⟩, set⟩ := share.take hi
          have now : Inv pool.state (rest + spare + deal.takes) := by
            rwa [add_assoc, ← hheld, ← same]
          obtain ⟨brought, next'⟩ := honours op pool.state e deal (rest + spare) hdeal now can (ht can)
          refine ⟨rest + (spare + deal.gives (act op pool.state e).2), set _ _ (later _ brought), ?_⟩
          rwa [← add_assoc]
        · exact ⟨total, share, inv⟩

theorem run_backed (honours : Honours deals act enabled cond Inv)
    (bodies : ∀ c, Entitled deals ends (body c) 0) {pool : Pool Op S α} {turns : List (Turn C E)}
    (h : Backed deals ends Inv pool) (ht : Machine.Admits (turn act enabled body) (Allowed enabled cond) pool turns) :
    Backed deals ends Inv (Machine.run (turn act enabled body) pool turns) :=
  Machine.run_induct (turn_backed honours bodies) h ht

theorem run_backed_always (honours : Honours deals act enabled (fun _ _ _ => True) Inv)
    (bodies : ∀ c, Entitled deals ends (body c) 0) {pool : Pool Op S α} (h : Backed deals ends Inv pool)
    (turns : List (Turn C E)) : Backed deals ends Inv (Machine.run (turn act enabled body) pool turns) := by
  refine Machine.run_always (fun pool t h => turn_backed honours bodies pool t h ?_) h turns
  unfold Allowed
  split
  · trivial
  · split <;> simp

end Pool

theorem alone_of_add {α : Type*} {rest : Multiset α} {a b : α} (h : rest + {a} = {b}) : rest = 0 ∧ a = b := by
  have empty : rest = 0 := by
    have := congrArg Multiset.card h
    simpa using this
  rw [empty, zero_add] at h
  exact ⟨empty, Multiset.singleton_inj.mp h⟩

theorem add_singleton_ne_zero {α : Type*} {rest : Multiset α} {a : α} : rest + {a} ≠ 0 := by
  intro h
  have := congrArg Multiset.card h
  simp at this

end Program
