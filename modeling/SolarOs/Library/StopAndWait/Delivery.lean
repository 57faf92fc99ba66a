import SolarOs.Library.StopAndWait.Protocol

/-! Every step of a stop-and-wait direction keeps its invariant. -/
namespace StopAndWait
open Function List

variable {Session Sequence Payload : Type*} [DecidableEq Session] {n : Numbering Sequence}
  {mayAdopt : Direction Session Sequence Payload → Session → Prop}
  {d e : Direction Session Sequence Payload} {progress : Session → Nat}

omit [DecidableEq Session] in
theorem Numbering.eq_of_last_two (n : Numbering Sequence) {i j len : Nat} (hi : i < len)
    (hj : j < len) (hi' : len ≤ i + 2) (hj' : len ≤ j + 2) (h : n.number i = n.number j) : i = j := by
  have hne := n.number_succ_ne (len - 2)
  rcases (by omega : i = j ∨ (i = len - 2 ∧ j = len - 2 + 1) ∨ (i = len - 2 + 1 ∧ j = len - 2)) with
    heq | ⟨hi, hj⟩ | ⟨hi, hj⟩
  · exact heq
  · rw [hi, hj] at h
    exact absurd h.symm hne
  · rw [hi, hj] at h
    exact absurd h hne

omit [DecidableEq Session] in
variable {slot : Slot Session Sequence Payload}

theorem getElem?_lt {l : List (Slot Session Sequence Payload)} {i : Nat} (h : l[i]? = some slot) : i < l.length :=
  (List.getElem?_eq_some_iff.mp h).1

namespace Inv

theorem initial (d : Direction Session Sequence Payload) (hs : d.sending = false)
    (hw : d.window = []) (hn : d.numbered = []) (hr : d.released = []) (hd : d.data = [])
    (ha : d.acks = []) (hm : d.remote = none) : Inv n d fun _ => 0 := by
  constructor <;> simp [hs, hw, hn, hr, hd, ha, hm]

theorem lose {data : List (Slot Session Sequence Payload)}
    {acks : List (Acknowledgement Session Sequence)} (h : Inv n d progress)
    (hd : data.Sublist d.data) (ha : acks.Sublist d.acks) : Inv n { d with data, acks } progress :=
  { h with
    acksDrawn := fun a hmem => h.acksDrawn a (ha.subset hmem)
    data := fun slot hmem => h.data slot (hd.subset hmem)
    dataSorted := h.dataSorted.sublist hd
    acks := fun hs a hmem => h.acks hs a (ha.subset hmem)
    acksSorted := fun hs => (h.acksSorted hs).sublist ha }

section
variable (h : Inv n d progress)
include h

theorem draw (s : Session) : Inv n { d with drawn := s :: d.drawn } progress :=
  { h with
    numberedDrawn := fun slot hmem => mem_cons_of_mem s (h.numberedDrawn slot hmem)
    acksDrawn := fun a hmem => mem_cons_of_mem s (h.acksDrawn a hmem)
    sessionDrawn := fun hs => mem_cons_of_mem s (h.sessionDrawn hs) }

theorem close : Inv n { d with sending := false, window := [] } progress :=
  { h with
    sessionDrawn := nofun
    nextSequence := nofun
    windowShort := Nat.zero_le 1
    windowSending := fun hne => absurd rfl hne
    numberedWindow := nofun
    idle := nofun
    acks := nofun
    acksSorted := nofun }

theorem forget (expected : Sequence) (received : Bool) : Inv n { d with remote := none, expected, received } progress :=
  { h with
    fresh := nofun
    following := nofun }

theorem adopt (s : Session) : Inv n { d with remote := some s, expected := n.number 0, received := false } progress :=
  { h with
    fresh := fun _ _ _ => rfl
    following := nofun }

theorem numbered_of_not_drawn {s : Session} (hs : s ∉ d.drawn) : inSession d.numbered s = [] :=
  inSession_of_none fun slot hmem heq => hs (heq ▸ h.numberedDrawn slot hmem)

theorem renew {s : Session} (hs : s ∉ d.drawn) :
    Inv n { d with drawn := s :: d.drawn, sending := true, session := s, next := n.number 0, window := [] }
      progress := by
  have hnone : inSession d.numbered s = [] := h.numbered_of_not_drawn hs
  have hacks : ∀ a ∈ d.acks, a.session ≠ s := fun a ha heq => hs (heq ▸ h.acksDrawn a ha)
  refine { (h.close.draw s) with
    sessionDrawn := fun _ => mem_cons_self
    nextSequence := fun _ => ?_
    windowSending := fun _ => rfl
    numberedWindow := fun _ => ?_
    idle := fun _ _ => ?_
    acks := fun _ a ha hsession => absurd hsession (hacks a ha)
    acksSorted := fun _ => ?_ }
  · simp [hnone]
  · have hnumbered := h.releasedPrefix s
    rw [hnone, prefix_nil] at hnumbered
    simp [hnone, hnumbered]
  · have hle := h.progressLe s
    simp only [hnone, length_nil, Nat.le_zero] at hle ⊢
    exact hle
  · exact pairwise_of_forall_mem_list fun a ha _ _ hsession => absurd hsession (hacks a ha)

theorem transmit (hslot : slot ∈ d.window) : Inv n { d with data := d.data ++ [slot] } progress := by
  have hsend : d.sending = true := h.windowSending (ne_nil_of_mem hslot)
  have hwin : d.window = [slot] := by
    have hshort := h.windowShort
    match hw : d.window, hslot, hshort with
    | [other], hmem, _ => rw [mem_singleton.mp hmem]
  have hnum := h.numberedWindow hsend
  rw [hwin] at hnum
  have hmem : slot ∈ inSession d.numbered d.session := by simp [hnum]
  have hsession : slot.session = d.session := (mem_inSession.mp hmem).2
  have hlast : (inSession d.numbered slot.session)[(inSession d.released d.session).length]? =
      some slot := by rw [hsession, hnum]; simp
  have hlen : (inSession d.numbered slot.session).length =
      (inSession d.released d.session).length + 1 := by rw [hsession, hnum]; simp
  refine { h with data := ?_, dataSorted := ?_ }
  · intro other hother
    rcases mem_append.mp hother with hold | hnew
    · exact h.data other hold
    · rw [mem_singleton.mp hnew]
      have htwo : (inSession d.numbered slot.session).length ≤ (inSession d.released d.session).length + 2 := by omega
      exact ⟨_, hlast, htwo, hlen ▸ h.progressLe slot.session⟩
  · refine pairwise_append.mpr ⟨h.dataSorted, pairwise_singleton .., ?_⟩
    intro f _ g hg hfg _
    rw [mem_singleton.mp hg] at hfg ⊢
    rw [hfg, h.numberedSequence _ _ _ hlast, hlen, Nat.add_sub_cancel]

theorem repeatAck {l : List (Acknowledgement Session Sequence)}
    {a : Acknowledgement Session Sequence} (hl : d.acks = l ++ [a]) :
    Inv n { d with acks := l ++ [a, a] } progress := by
  have hmem : ∀ b ∈ l ++ [a, a], b ∈ d.acks := by
    intro b hb
    simpa [hl] using hb
  refine { h with
    acksDrawn := fun b hb => h.acksDrawn b (hmem b hb)
    acks := fun hs b hb => h.acks hs b (hmem b hb)
    acksSorted := fun hs => ?_ }
  have hsorted := h.acksSorted hs
  rw [hl, pairwise_append] at hsorted
  obtain ⟨hleft, -, hcross⟩ := hsorted
  refine pairwise_append.mpr ⟨hleft, ?_, ?_⟩
  · refine pairwise_pair.mpr ?_
    exact fun _ _ hseq => hseq
  · intro b hb c hc
    exact hcross b hb c (by simpa using hc)

theorem request {s : Session} (hs : s ∈ d.drawn) (hremote : d.remote = some s)
    (hany : d.expected = n.number 0 → d.received = true) :
    Inv n { d with acks := d.acks ++ [⟨s, n.previous d.expected⟩] } progress := by
  have hreceived : d.received = true := by
    by_contra hnot
    exact hnot (hany (h.fresh s hremote (Bool.not_eq_true _ ▸ hnot)))
  obtain ⟨hexpected, hone⟩ := h.following s hremote hreceived
  obtain ⟨k, hk⟩ : ∃ k, progress s = k + 1 := ⟨progress s - 1, by omega⟩
  have hprevious : n.previous d.expected = n.number k := by
    rw [hexpected, hk, n.previous_number]
  have hle := h.progressLe s
  have hge := h.progressGe s
  refine { h with
    acksDrawn := fun a ha => ?_
    acks := fun hsend a ha hsession => ?_
    acksSorted := fun hsend => pairwise_append.mpr
      ⟨h.acksSorted hsend, pairwise_singleton .., ?_⟩ }
  · rcases mem_append.mp ha with hold | hnew
    · exact h.acksDrawn a hold
    · rw [mem_singleton.mp hnew]
      exact hs
  · rcases mem_append.mp ha with hold | hnew
    · exact h.acks hsend a hold hsession
    · rw [mem_singleton.mp hnew] at hsession ⊢
      obtain rfl : s = d.session := hsession
      have hnear : (inSession d.numbered d.session).length ≤ k + 2 := by omega
      refine ⟨k, hprevious, hk.ge, hnear, fun hidle => ?_⟩
      rw [← h.idle hsend hidle, hk]
  · intro a ha b hb hsession hsession' hsequence
    rw [mem_singleton.mp hb] at hsession' ⊢
    obtain rfl : s = d.session := hsession'
    obtain ⟨j, hj, hj', hlast, -⟩ := h.acks hsend a ha hsession
    have heq : j = (inSession d.numbered d.session).length - 1 :=
      n.eq_of_last_two (by omega) (by omega) hlast (by omega) (hj.symm.trans hsequence)
    have hlast' : k = (inSession d.numbered d.session).length - 1 := by omega
    exact hprevious.trans (congrArg n.number hlast')

theorem number (payload : Payload) (hsend : d.sending = true) (hidle : d.window = []) : Inv n { d with
        next := n.next d.next
        window := [⟨d.session, d.next, payload⟩]
        numbered := d.numbered ++ [⟨d.session, d.next, payload⟩] } progress := by
  have hself : inSession (d.numbered ++ [⟨d.session, d.next, payload⟩]) d.session =
      inSession d.numbered d.session ++ [⟨d.session, d.next, payload⟩] := inSession_snoc_self rfl
  have hother : ∀ s, d.session ≠ s →
      inSession (d.numbered ++ [⟨d.session, d.next, payload⟩]) s = inSession d.numbered s :=
    fun s hne => inSession_snoc_ne hne
  have hnumbered : ∀ s, inSession d.numbered s <+:
      inSession (d.numbered ++ [⟨d.session, d.next, payload⟩]) s := by
    intro s
    rw [inSession_append]
    exact prefix_append _ _
  have hnext := h.nextSequence hsend
  have hdone := h.idle hsend hidle
  refine { h with
    numberedDrawn := ?_, numberedSequence := ?_, nextSequence := fun _ => ?_
    windowShort := Nat.le_refl 1, windowSending := fun _ => hsend, numberedWindow := fun _ => ?_
    progressLe := fun s => (h.progressLe s).trans (hnumbered s).length_le
    progressGe := fun s => ?_, idle := nofun, passed := fun s => ?_
    releasedPrefix := fun s => (h.releasedPrefix s).trans (hnumbered s)
    data := fun slot hslot => ?_, dataSorted := ?_, acks := fun _ a ha hsession => ?_
    acksSorted := fun _ => ?_ }
  · intro slot hslot
    rcases mem_append.mp hslot with hold | hnew
    · exact h.numberedDrawn slot hold
    · rw [mem_singleton.mp hnew]
      exact h.sessionDrawn hsend
  · intro s i slot hi
    by_cases hs : d.session = s
    · subst hs
      rw [hself] at hi
      rcases Nat.lt_or_ge i (inSession d.numbered d.session).length with hlt | hge
      · rw [getElem?_append_left hlt] at hi
        exact h.numberedSequence _ i slot hi
      · rw [getElem?_append_right hge, getElem?_singleton] at hi
        split at hi
        next hzero =>
          obtain rfl := Option.some.inj hi
          rw [hnext, (by omega : i = (inSession d.numbered d.session).length)]
        next => cases hi
    · rw [hother s hs] at hi
      exact h.numberedSequence s i slot hi
  · rw [hself, hnext, n.next_number, length_append, length_singleton]
  · rw [hself, h.numberedWindow hsend, hidle, append_nil]
  · by_cases hs : d.session = s
    · subst hs
      rw [hself, length_append, length_singleton, hdone]
    · rw [hother s hs]
      exact h.progressGe s
  · obtain ⟨tail, htail⟩ := hnumbered s
    rw [← htail, take_append_of_le_length (h.progressLe s)]
    exact h.passed s
  · obtain ⟨i, hi, hlast, hpassed⟩ := h.data slot hslot
    have hi' : (inSession (d.numbered ++ [⟨d.session, d.next, payload⟩]) slot.session)[i]? = some slot := by
      obtain ⟨tail, htail⟩ := hnumbered slot.session
      rw [← htail, getElem?_append_left (getElem?_lt hi), hi]
    refine ⟨i, hi', ?_, hpassed⟩
    by_cases hs : d.session = slot.session
    · rw [← hs] at hpassed hlast ⊢
      rw [hself, length_append, length_singleton, ← hdone]
      omega
    · rw [hother _ hs]
      exact hlast
  · refine h.dataSorted.imp_of_mem ?_
    intro f g hf _ hfg hsession hsequence
    by_cases hs : d.session = f.session
    · obtain ⟨i, hi, -, hpassed⟩ := h.data f hf
      rw [← hs] at hsequence hpassed hi
      have hlt := getElem?_lt hi
      rw [h.numberedSequence _ i f hi, hself, length_append, length_singleton,
        Nat.add_sub_cancel, (by omega : i = (inSession d.numbered d.session).length - 1)] at hsequence
      have hne := n.number_succ_ne ((inSession d.numbered d.session).length - 1)
      rw [Nat.sub_add_cancel (by omega)] at hne
      exact absurd hsequence.symm hne
    · rw [hother _ hs] at hsequence ⊢
      exact hfg hsession hsequence
  · obtain ⟨k, hk, hle, -, hlast⟩ := h.acks hsend a ha hsession
    refine ⟨k, hk, hle, ?_, nofun⟩
    rw [hself, length_append, length_singleton, ← hlast hidle]
  · refine pairwise_of_forall_mem_list fun a ha b _ hsession _ hsequence => ?_
    obtain ⟨k, hk, -, -, hlast⟩ := h.acks hsend a ha hsession
    rw [hself, length_append, length_singleton, Nat.add_sub_cancel, ← hlast hidle, hk] at hsequence
    exact absurd hsequence.symm (n.number_succ_ne k)

theorem release {a : Acknowledgement Session Sequence}
    {rest : List (Acknowledgement Session Sequence)} {gone kept : List (Slot Session Sequence Payload)}
    {last : Slot Session Sequence Payload} (hsend : d.sending = true) (hacks : d.acks = a :: rest)
    (hsession : a.session = d.session) (hwindow : d.window = gone ++ kept)
    (hlast : gone.getLast? = some last) (hsequence : last.sequence = a.sequence) :
    Inv n { d with window := kept, released := d.released ++ gone } progress := by
  have hshort := h.windowShort
  obtain ⟨rfl, rfl⟩ : gone = [last] ∧ kept = [] := by
    match gone, kept, hwindow ▸ hshort, hlast with
    | [_], [], _, hlast => exact ⟨congrArg (fun x => [x]) (Option.some.inj hlast), rfl⟩
  have hnumbered := h.numberedWindow hsend
  rw [hwindow, append_nil] at hnumbered
  have hlen : (inSession d.numbered d.session).length =
      (inSession d.released d.session).length + 1 := by rw [hnumbered]; simp
  have hget : (inSession d.numbered d.session)[(inSession d.released d.session).length]? = some last := by
    rw [hnumbered]
    simp
  have hof : last.session = d.session := (mem_inSession.mp (mem_of_getElem? hget)).2
  obtain ⟨k, hk, hle, hnear, -⟩ := h.acks hsend a (hacks ▸ mem_cons_self) hsession
  have hprogress := h.progressLe d.session
  -- the acknowledgement is for the last slot, so everything numbered was passed
  have heq : (inSession d.released d.session).length = k :=
    n.eq_of_last_two (by omega) (by omega) (by omega) hnear
      ((h.numberedSequence _ _ _ hget).symm.trans (hsequence.trans hk))
  have hself : inSession (d.released ++ [last]) d.session = inSession d.numbered d.session := by
    rw [inSession_snoc_self hof, hnumbered]
  have hother : ∀ s, d.session ≠ s → inSession (d.released ++ [last]) s = inSession d.released s :=
    fun s hs => inSession_snoc_ne (hof ▸ hs)
  refine { h with
    windowShort := Nat.zero_le 1, windowSending := fun hne => absurd rfl hne
    numberedWindow := fun _ => ?_, idle := fun _ _ => ?_, releasedPrefix := fun s => ?_
    releasedLe := fun s => ?_, acks := fun _ b hb hb' => ?_ }
  · rw [hself, append_nil]
  · change progress d.session = (inSession d.numbered d.session).length
    omega
  · by_cases hs : d.session = s
    · subst hs
      rw [hself]
    · rw [hother s hs]
      exact h.releasedPrefix s
  · by_cases hs : d.session = s
    · subst hs
      rw [hself]
      omega
    · rw [hother s hs]
      exact h.releasedLe s
  · obtain ⟨j, hj, hjle, hjnear, -⟩ := h.acks hsend b hb hb'
    refine ⟨j, hj, hjle, hjnear, fun _ => ?_⟩
    have hlastSeq : n.number k = n.number ((inSession d.numbered d.session).length - 1) := by
      congr 1
      omega
    have hbseq : b.sequence = n.number ((inSession d.numbered d.session).length - 1) := by
      have hb'' := hb
      rw [hacks] at hb''
      rcases mem_cons.mp hb'' with rfl | hrest
      · exact hk.trans hlastSeq
      · have hsorted := h.acksSorted hsend
        rw [hacks] at hsorted
        exact (pairwise_cons.mp hsorted).1 b hrest hsession hb' (hk.trans hlastSeq)
    have hjk := n.eq_of_last_two (by omega) (by omega) hjnear hnear
      (hj.symm.trans (hbseq.trans hlastSeq.symm))
    change j + 1 = (inSession d.numbered d.session).length
    omega

/-- Accepting slot `i` of a session moves the receiver to slot `i + 1` of it. -/
theorem accept {rest : List (Slot Session Sequence Payload)} {i : Nat}
    (hdata : d.data = slot :: rest) (hremote : d.remote = some slot.session)
    (hsequence : slot.sequence = d.expected) (hi : (inSession d.numbered slot.session)[i]? = some slot)
    (hnear : (inSession d.numbered slot.session).length ≤ i + 2) (hle : progress slot.session ≤ i + 1) : Inv n { d with
        expected := n.next d.expected
        received := true
        appended := d.appended ++ [slot] } (update progress slot.session (i + 1)) := by
  have hlt := getElem?_lt hi
  have hnumber : slot.sequence = n.number i := h.numberedSequence _ i slot hi
  have hself : update progress slot.session (i + 1) slot.session = i + 1 := update_self ..
  have hother : ∀ s, slot.session ≠ s → update progress slot.session (i + 1) s = progress s :=
    fun s hs => update_of_ne (Ne.symm hs) ..
  have hge : ∀ s, progress s ≤ update progress slot.session (i + 1) s := by
    intro s
    by_cases hs : slot.session = s
    · exact hs ▸ hself.symm ▸ hle
    · exact (hother s hs).ge
  refine { h with
    progressLe := fun s => ?_, progressGe := fun s => ?_, idle := fun hsend hidle => ?_
    passed := fun s => ?_, releasedLe := fun s => (h.releasedLe s).trans (hge s)
    data := fun f hf => ?_, fresh := nofun, following := fun s hs _ => ?_
    acks := fun hsend a ha hsession => ?_ }
  · by_cases hs : slot.session = s
    · subst hs
      rw [hself]
      exact hlt
    · rw [hother s hs]
      exact h.progressLe s
  · exact (h.progressGe s).trans (Nat.succ_le_succ (hge s))
  · have hdone := h.idle hsend hidle
    by_cases hs : slot.session = d.session
    · have heq : i + 1 = (inSession d.numbered d.session).length := by
        rw [hs] at hle hlt
        omega
      rw [← heq, ← hs]
      exact hself
    · exact (hother _ hs).trans hdone
  · by_cases hs : slot.session = s
    · subst hs
      rw [hself, inSession_snoc_self rfl]
      have hpassed := h.passed slot.session
      rcases Nat.lt_or_ge i (progress slot.session) with hlow | hhigh
      · rw [(by omega : i + 1 = progress slot.session)]
        exact hpassed.trans (sublist_append_left ..)
      · have hprogress := h.progressGe slot.session
        obtain rfl : i = progress slot.session := by omega
        rw [take_add_one, hi]
        exact hpassed.append (.refl _)
    · rw [hother s hs, inSession_snoc_ne hs]
      exact h.passed s
  · obtain ⟨j, hj, hjnear, hjle⟩ := h.data f hf
    refine ⟨j, hj, hjnear, ?_⟩
    by_cases hs : slot.session = f.session
    · rw [← hs] at hj hjnear hjle ⊢
      have hjlt := getElem?_lt hj
      rw [hself]
      rw [hdata] at hf
      rcases mem_cons.mp hf with rfl | hrest
      · have hij := n.eq_of_last_two hlt hjlt hnear hjnear (hnumber.symm.trans (h.numberedSequence _ j _ hj))
        omega
      · -- what follows the accepted frame is no older than it
        by_contra hold
        have hlast : i = (inSession d.numbered slot.session).length - 1 := by omega
        have hsorted := h.dataSorted
        rw [hdata] at hsorted
        have hlater := (pairwise_cons.mp hsorted).1 f hrest hs (hnumber.trans (congrArg n.number hlast))
        have hij := n.eq_of_last_two hjlt hlt hjnear hnear
          ((h.numberedSequence _ j _ hj).symm.trans (hlater.trans (congrArg n.number hlast.symm)))
        omega
    · rw [hother _ hs]
      exact hjle
  · obtain rfl : slot.session = s := Option.some.inj (hremote.symm.trans hs)
    rw [hself]
    refine ⟨?_, Nat.succ_pos i⟩
    rw [← hsequence, hnumber, n.next_number]
  · obtain ⟨k, hk, hkle, hkrest⟩ := h.acks hsend a ha hsession
    exact ⟨k, hk, hkle.trans (hge _), hkrest⟩

end

end Inv

end StopAndWait

/-! What a stop-and-wait direction delivers: released slots have been appended, and
a receiver that never returns to a session it has slots of appends each slot once. -/
namespace StopAndWait
open Function List

variable {Session Sequence Payload : Type*} [DecidableEq Session] {n : Numbering Sequence}
  {mayAdopt : Direction Session Sequence Payload → Session → Prop}
  {d e : Direction Session Sequence Payload} {progress : Session → Nat}

/-- What holds as well when the receiver follows only sessions it has nothing of. -/
structure Clean (d : Direction Session Sequence Payload) (progress : Session → Nat) : Prop where
  passed : ∀ s, inSession d.appended s = (inSession d.numbered s).take (progress s)
  fresh : ∀ s, d.remote = some s → d.received = false → inSession d.appended s = []

namespace Clean

theorem initial (d : Direction Session Sequence Payload) (ha : d.appended = []) (hm : d.remote = none) :
    Clean d fun _ => 0 := by
  constructor <;> simp [ha, hm]

theorem number (hc : Clean d progress) (h : Inv n d progress) (payload : Payload) : Clean { d with
        next := n.next d.next
        window := [⟨d.session, d.next, payload⟩]
        numbered := d.numbered ++ [⟨d.session, d.next, payload⟩] } progress := by
  refine { hc with passed := fun s => ?_ }
  rw [inSession_append, take_append_of_le_length (h.progressLe s)]
  exact hc.passed s

theorem accept_index (hc : Clean d progress) (h : Inv n d progress)
    {slot : Slot Session Sequence Payload} {i : Nat} (hremote : d.remote = some slot.session)
    (hsequence : slot.sequence = d.expected) (hi : (inSession d.numbered slot.session)[i]? = some slot)
    (hnear : (inSession d.numbered slot.session).length ≤ i + 2)
    (hle : progress slot.session ≤ i + 1) : i = progress slot.session := by
  have hlt := getElem?_lt hi
  have hge := h.progressGe slot.session
  have hprogress := h.progressLe slot.session
  cases hreceived : d.received with
  | false =>
      have hnone := hc.fresh _ hremote hreceived
      rw [hc.passed, take_eq_nil_iff] at hnone
      rcases hnone with hzero | hnil
      · omega
      · rw [hnil] at hlt
        exact absurd hlt (Nat.not_lt_zero i)
  | true =>
      obtain ⟨hexpected, hone⟩ := h.following _ hremote hreceived
      by_contra hne
      have heq : progress slot.session = i + 1 := by omega
      refine n.number_succ_ne i ?_
      rw [← heq, ← hexpected, ← hsequence, h.numberedSequence _ i slot hi]

theorem accept (hc : Clean d progress) {slot : Slot Session Sequence Payload}
    (hi : (inSession d.numbered slot.session)[progress slot.session]? = some slot) : Clean { d with
        expected := n.next d.expected
        received := true
        appended := d.appended ++ [slot] }
      (update progress slot.session (progress slot.session + 1)) := by
  refine ⟨fun s => ?_, nofun⟩
  by_cases hs : slot.session = s
  · subst hs
    rw [update_self, inSession_snoc_self rfl, take_add_one, hi, hc.passed]
    rfl
  · rw [update_of_ne (Ne.symm hs), inSession_snoc_ne hs]
    exact hc.passed s

end Clean

def AdoptsNew (d : Direction Session Sequence Payload) (s : Session) : Prop :=
  inSession d.appended s = []

section
variable (h : Inv n d progress)
include h

theorem Inv.step (hstep : Step n mayAdopt d e) : ∃ progress', Inv n e progress' := by
  cases hstep with
  | lose hdata hacks => exact ⟨progress, h.lose hdata hacks⟩
  | draw s => exact ⟨progress, h.draw s⟩
  | close => exact ⟨progress, h.close⟩
  | renew hs => exact ⟨progress, h.renew hs⟩
  | number payload hsend hidle => exact ⟨progress, h.number payload hsend hidle⟩
  | transmit hslot => exact ⟨progress, h.transmit hslot⟩
  | release hsend hacks hsession hwindow hlast hsequence =>
      exact ⟨progress, h.release hsend hacks hsession hwindow hlast hsequence⟩
  | @adopt s _ => exact ⟨progress, h.adopt s⟩
  | forget expected received => exact ⟨progress, h.forget expected received⟩
  | @accept slot rest hdata hremote hsequence =>
      obtain ⟨i, hi, hnear, hle⟩ := h.data slot (hdata ▸ mem_cons_self)
      exact ⟨_, h.accept hdata hremote hsequence hi hnear hle⟩
  | request hs hremote hany => exact ⟨progress, h.request hs hremote hany⟩
  | repeatAck hl => exact ⟨progress, h.repeatAck hl⟩

theorem Inv.step_clean (hc : Clean d progress)
    (hstep : Step n AdoptsNew d e) : ∃ progress', Inv n e progress' ∧ Clean e progress' := by
  cases hstep with
  | lose hdata hacks => exact ⟨progress, h.lose hdata hacks, { hc with }⟩
  | draw s => exact ⟨progress, h.draw s, { hc with }⟩
  | close => exact ⟨progress, h.close, { hc with }⟩
  | renew hs => exact ⟨progress, h.renew hs, { hc with }⟩
  | number payload hsend hidle =>
      exact ⟨progress, h.number payload hsend hidle, hc.number h payload⟩
  | transmit hslot => exact ⟨progress, h.transmit hslot, { hc with }⟩
  | release hsend hacks hsession hwindow hlast hsequence =>
      exact ⟨progress, h.release hsend hacks hsession hwindow hlast hsequence, { hc with }⟩
  | @adopt s hnew =>
      refine ⟨progress, h.adopt s, hc.passed, fun s' hs' _ => ?_⟩
      obtain rfl : s = s' := Option.some.inj hs'
      exact hnew
  | forget expected received => exact ⟨progress, h.forget expected received, hc.passed, nofun⟩
  | @accept slot rest hdata hremote hsequence =>
      obtain ⟨i, hi, hnear, hle⟩ := h.data slot (hdata ▸ mem_cons_self)
      obtain rfl := hc.accept_index h hremote hsequence hi hnear hle
      exact ⟨_, h.accept hdata hremote hsequence hi hnear hle, hc.accept hi⟩
  | request hs hremote hany => exact ⟨progress, h.request hs hremote hany, { hc with }⟩
  | repeatAck hl => exact ⟨progress, h.repeatAck hl, { hc with }⟩

theorem Inv.steps (hsteps : Steps n mayAdopt d e) : ∃ progress', Inv n e progress' := by
  induction hsteps with
  | refl => exact ⟨progress, h⟩
  | tail _ hstep ih =>
      obtain ⟨progress', h'⟩ := ih
      exact h'.step hstep

theorem Inv.steps_clean (hc : Clean d progress)
    (hsteps : Steps n AdoptsNew d e) : ∃ progress', Inv n e progress' ∧ Clean e progress' := by
  induction hsteps with
  | refl => exact ⟨progress, h, hc⟩
  | tail _ hstep ih =>
      obtain ⟨progress', h', hc'⟩ := ih
      exact h'.step_clean hc' hstep

theorem Inv.genuine_step (hstep : Step n mayAdopt d e) (hd : d.appended ⊆ d.numbered) : e.appended ⊆ e.numbered := by
  cases hstep with
  | number payload => exact subset_append_of_subset_left _ hd
  | @accept slot rest hdata =>
      obtain ⟨i, hi, -⟩ := h.data slot (hdata ▸ mem_cons_self)
      exact append_subset.mpr ⟨hd, cons_subset.mpr ⟨(mem_inSession.mp (mem_of_getElem? hi)).1, nil_subset _⟩⟩
  | _ => exact hd

/-- The receiver only appends slots that the sender numbered. -/
theorem Inv.genuine (hsteps : Steps n mayAdopt d e) (hd : d.appended ⊆ d.numbered) : e.appended ⊆ e.numbered := by
  induction hsteps with
  | refl => exact hd
  | tail hsteps hstep ih =>
      obtain ⟨progress', h'⟩ := h.steps hsteps
      exact h'.genuine_step hstep ih

theorem Inv.released_appended (s : Session) : (inSession d.released s).Sublist (inSession d.appended s) := by
  rw [prefix_iff_eq_take.mp (h.releasedPrefix s)]
  exact (take_sublist_take_left (h.releasedLe s)).trans (h.passed s)

end

theorem Clean.appended_prefix (hc : Clean d progress) (s : Session) :
    inSession d.appended s <+: inSession d.numbered s := by
  rw [hc.passed]
  exact take_prefix ..

end StopAndWait
