import Mathlib.Data.List.TakeWhile
import SolarOs.Library.SegmentPath
import SolarOs.Storage.Mounts

/-! Joined and normalised paths: they stay below their root. -/
namespace SolarOs.StoragePath
open SegmentPath List CString

/-- The character `.`. -/
def dot : UInt8 := 46

def appendPathSegment (out : List UInt8) (outLen : Nat) (segment : List UInt8) : Except EspErr (List UInt8) :=
  let needsSlash : Bool := ¬ (out.length = 1 ∧ out.head? = some slash)
  let slashLen := if needsSlash then 1 else 0
  if out.length + slashLen + segment.length ≥ outLen then .error .invalidSize
  else .ok ((if needsSlash then out ++ [slash] else out) ++ segment)

def popPathSegment (out : List UInt8) (rootLen : Nat) : List UInt8 :=
  if out.length ≤ rootLen then out.take rootLen
  else
    match lastSep slash out with
    | none => out.take rootLen
    | some i => if i ≤ rootLen then out.take rootLen else out.take i

def takeSegment (outLen rootLen : Nat) (out segment : List UInt8) : Except EspErr (List UInt8) :=
  if segment = [] ∨ segment = [dot] then .ok out
  else if segment = [dot, dot] then .ok (popPathSegment out rootLen)
  else appendPathSegment out outLen segment

theorem dropWhile_lt {p q : UInt8 → Bool} (all : ∀ c, p c = false → q c = true) {cursor : List UInt8}
    (more : cursor ≠ []) : ((cursor.dropWhile p).dropWhile q).length < cursor.length := by
  obtain ⟨c, cursor, rfl⟩ := exists_cons_of_ne_nil more
  have shorter (q : UInt8 → Bool) (l : List UInt8) : (l.dropWhile q).length ≤ l.length := (dropWhile_suffix q).length_le
  cases first : p c with
  | true =>
    rw [dropWhile_cons_of_pos first]
    exact Nat.lt_succ_of_le (le_trans (shorter q _) (shorter p _))
  | false =>
    rw [dropWhile_cons_of_neg (by rw [first]; decide), dropWhile_cons_of_pos (all c first)]
    exact Nat.lt_succ_of_le (shorter q _)

/-- The loop of `solar_os_storage_join_path`. -/
def joinLoop (pathLen rootLen : Nat) (path cursor : List UInt8) : Except EspErr (List UInt8) :=
  if _more : cursor = [] then .ok path
  else do
    let start := cursor.dropWhile (· = slash)
    let path ← takeSegment pathLen rootLen path (start.takeWhile (· ≠ slash))
    joinLoop pathLen rootLen path (start.dropWhile (· ≠ slash))
termination_by cursor.length
decreasing_by exact dropWhile_lt (fun c other => by simpa using other) _more

/-- The loop of `solar_os_storage_normalize_path`. -/
def normalizeLoop (outLen rootLen : Nat) (out cursor : List UInt8) : Except EspErr (List UInt8) :=
  if _more : cursor = [] then .ok out
  else do
    let out ← takeSegment outLen rootLen out (cursor.takeWhile (· ≠ slash))
    normalizeLoop outLen rootLen out ((cursor.dropWhile (· ≠ slash)).dropWhile (· = slash))
termination_by cursor.length
decreasing_by exact dropWhile_lt (fun c other => by simpa using other) _more

def trimmedLen (base : List UInt8) : Nat → Nat
  | 0 => 0
  | 1 => 1
  | len + 2 => if base[len + 1]? = some slash then trimmedLen base (len + 1) else len + 2

def joinPath (base : CString) (relative : Option CString) (pathLen : Nat) : Except EspErr CString :=
  if base.bytes.head? ≠ some slash ∨ pathLen = 0 then .error .invalidArg
  else
    let baseLen := trimmedLen base.bytes base.strlen
    if baseLen ≥ pathLen then .error .invalidSize
    else
      let path := base.bytes.take baseLen
      match relative with
      | none => .ok (.ofBytes path)
      | some cursor => (joinLoop pathLen baseLen path cursor.bytes).map .ofBytes

def Mounts.normalizePath (s : Mounts) (path : CString) (outLen : Nat) : Except EspErr CString :=
  if path.bytes = [] ∨ outLen = 0 then .error .invalidArg
  else do
    let root ← s.pathMountPoint path mountPointMax
    if root.strlen ≥ outLen then .error .invalidSize
    else
      let cursor := (path.bytes.drop root.strlen).dropWhile (· = slash)
      (normalizeLoop outLen root.strlen root.bytes cursor).map .ofBytes

variable {size : Nat} {root out rest : List UInt8} {place segments : List (List UInt8)}

theorem appendPathSegment_eq (out : List UInt8) (size : Nat) (segment : List UInt8) :
    appendPathSegment out size segment =
      if (put slash out segment).length < size then .ok (put slash out segment) else .error .invalidSize := by
  have top : (out.length = 1 ∧ out.head? = some slash) ↔ out = [slash] := by
    constructor
    · rintro ⟨single, first⟩
      obtain ⟨c, rfl⟩ := length_eq_one_iff.mp single
      rw [Option.some.inj first]
    · rintro rfl
      exact ⟨rfl, rfl⟩
  unfold appendPathSegment put
  simp only [top, decide_not, Bool.not_eq_true', decide_eq_false_iff_not]
  by_cases same : out = [slash]
  · simp only [same, not_true, if_false, if_true, ← not_lt, ite_not, length_append, add_zero]
  · simp only [same, not_false_eq_true, if_true, if_false, ← not_lt, ite_not, length_append, length_singleton]

theorem popPathSegment_eq (some : root ≠ []) (plain : ∀ s ∈ place, Plain slash dot s) :
    popPathSegment (putAll slash root place) root.length = putAll slash root place.dropLast := by
  have front : (putAll slash root place).take root.length = root :=
    (prefix_iff_eq_take.mp (prefix_putAll slash root place)).symm
  induction place using List.reverseRecOn with
  | nil =>
    have self : putAll slash root [] = root := rfl
    unfold popPathSegment
    rw [self, if_pos (Nat.le_refl root.length), take_length]
    rfl
  | append_singleton place last _ =>
    have named := plain last (mem_append_right _ mem_cons_self)
    have out : putAll slash root (place ++ [last]) = put slash (putAll slash root place) last := by
      rw [putAll_append]
      rfl
    have reached := (prefix_putAll slash root place).length_le
    have longer := length_lt_put slash (putAll slash root place) named.nonempty
    unfold popPathSegment
    rw [front, dropLast_concat, out, if_neg (by omega), put_eq, lastSep_append _ named.whole]
    simp only
    cases place with
    | nil =>
      exact if_pos (stem_length_le root)
    | cons first place =>
      have below : root.length < (putAll slash root (first :: place)).length :=
        lt_of_lt_of_le (length_lt_put slash root (plain first (by simp)).nonempty)
          (prefix_putAll slash (put slash root first) place).length_le
      have long := length_pos_iff.mpr some
      have notTop : putAll slash root (first :: place) ≠ [slash] := by
        intro top
        rw [top, length_singleton] at below
        omega
      rw [stem, if_neg notTop, if_neg (by omega), take_left]

theorem takeSegment_ok (some : root ≠ []) (plain : ∀ s ∈ place, Plain slash dot s) {segment : List UInt8}
    (named : segment ≠ []) (h : takeSegment size root.length (putAll slash root place) segment = .ok out) :
    out = putAll slash root (step dot place segment) := by
  unfold takeSegment at h
  unfold step
  by_cases one : segment = [dot]
  · rw [if_pos (.inr one)] at h
    rw [if_pos one]
    cases h
    rfl
  · rw [if_neg (fun bad => bad.elim named one)] at h
    rw [if_neg one]
    split_ifs at h ⊢ with two
    · cases h
      exact popPathSegment_eq some plain
    · rw [appendPathSegment_eq] at h
      split_ifs at h
      cases h
      rw [putAll_append]
      rfl

theorem takeSegments_ok (some : root ≠ []) (plain : ∀ s ∈ place, Plain slash dot s)
    (named : ∀ s ∈ segments, s ≠ [] ∧ slash ∉ s)
    (h : segments.foldlM (takeSegment size root.length) (putAll slash root place) = .ok out) :
    out = putAll slash root (resolve dot place segments) ∧
      ∀ s ∈ resolve dot place segments, Plain slash dot s := by
  induction segments generalizing place with
  | nil =>
    cases h
    exact ⟨rfl, plain⟩
  | cons first segments ih =>
    obtain ⟨nonempty, whole⟩ := named first mem_cons_self
    rw [foldlM_cons] at h
    cases step : takeSegment size root.length (putAll slash root place) first with
    | error fault =>
      rw [step] at h
      cases h
    | ok next =>
      have moved := takeSegment_ok some plain nonempty step
      rw [step, moved] at h
      exact ih (step_keeps plain nonempty whole) (fun s there => named s (mem_cons_of_mem _ there)) h

theorem takeSegment_fits {rootLen : Nat} {segment next : List UInt8} (fits : out.length < size)
    (h : takeSegment size rootLen out segment = .ok next) : next.length < size := by
  have cut (n : Nat) : (out.take n).length < size := lt_of_le_of_lt (length_take_le' n out) fits
  unfold takeSegment popPathSegment at h
  rw [appendPathSegment_eq] at h
  split_ifs at h with stay up short room
  · cases h
    exact fits
  · cases h
    exact cut _
  · cases h
    split
    · exact cut _
    · split_ifs <;> exact cut _
  · cases h
    exact room

theorem takeSegments_fit {rootLen : Nat} {bytes : List UInt8} (fits : out.length < size)
    (h : segments.foldlM (takeSegment size rootLen) out = .ok bytes) : bytes.length < size := by
  induction segments generalizing out with
  | nil =>
    cases h
    exact fits
  | cons first segments ih =>
    rw [foldlM_cons] at h
    cases step : takeSegment size rootLen out first with
    | error fault =>
      rw [step] at h
      cases h
    | ok next =>
      rw [step] at h
      exact ih (takeSegment_fits fits step) h

theorem takeSegments_plain (plain : ∀ s ∈ segments, Plain slash dot s)
    (room : (putAll slash out segments).length < size) (rootLen : Nat) :
    segments.foldlM (takeSegment size rootLen) out = .ok (putAll slash out segments) := by
  induction segments generalizing out with
  | nil => rfl
  | cons first segments ih =>
    have named := plain first mem_cons_self
    have shorter := (prefix_putAll slash (put slash out first) segments).length_le
    have taken : takeSegment size rootLen out first = .ok (put slash out first) := by
      unfold takeSegment
      rw [if_neg (fun bad => bad.elim named.nonempty named.notDot), if_neg named.notDots,
        appendPathSegment_eq, if_pos (lt_of_le_of_lt shorter room)]
    rw [foldlM_cons, taken]
    exact ih (fun s there => plain s (mem_cons_of_mem _ there)) room

theorem takeSegment_first (size rootLen : Nat) (out cursor : List UInt8) :
    takeSegment size rootLen out (cursor.takeWhile (· ≠ slash)) =
      (parts slash (cursor.takeWhile (· ≠ slash))).foldlM (takeSegment size rootLen) out := by
  by_cases none : cursor.takeWhile (· ≠ slash) = []
  · rw [none]
    rfl
  · rw [parts_of_not_mem none (not_mem_takeWhile cursor), foldlM_cons]
    exact (bind_pure _).symm

theorem normalizeLoop_eq (size rootLen : Nat) (out cursor : List UInt8) :
    normalizeLoop size rootLen out cursor = (parts slash cursor).foldlM (takeSegment size rootLen) out := by
  induction out, cursor using normalizeLoop.induct with
  | case1 out =>
    rw [normalizeLoop]
    rfl
  | case2 out cursor more ih =>
    rw [normalizeLoop, dif_neg more, parts_takeWhile, foldlM_append, takeSegment_first]
    congr 1
    funext out
    rw [ih, parts_dropWhile]

theorem joinLoop_eq (size rootLen : Nat) (path cursor : List UInt8) :
    joinLoop size rootLen path cursor = (parts slash cursor).foldlM (takeSegment size rootLen) path := by
  induction path, cursor using joinLoop.induct with
  | case1 path =>
    rw [joinLoop]
    rfl
  | case2 path cursor more start ih =>
    rw [joinLoop, dif_neg more, ← parts_dropWhile, parts_takeWhile, foldlM_append, ← takeSegment_first]
    exact congrArg (takeSegment size rootLen path _ >>= ·) (funext ih)

theorem noNul_putAll (noNul : ∀ b ∈ root, b ≠ 0) (named : ∀ s ∈ segments, ∀ b ∈ s, b ≠ 0) :
    ∀ b ∈ putAll slash root segments, b ≠ 0 := by
  induction segments generalizing root with
  | nil => exact noNul
  | cons first segments ih =>
    refine ih ?_ fun s there => named s (mem_cons_of_mem _ there)
    intro b there
    rw [put_eq] at there
    rcases mem_append.mp there with before | after
    · unfold stem at before
      split_ifs at before
      · cases before
      · exact noNul b before
    · rcases mem_cons.mp after with rfl | inside
      · decide
      · exact named first mem_cons_self b inside

theorem ofBytes_of_noNul {bytes : List UInt8} (noNul : ∀ b ∈ bytes, b ≠ 0) : (ofBytes bytes).bytes = bytes :=
  takeWhile_eq_self_iff.mpr fun b there => by simpa using noNul b there

/-- The path is a root and segments below it that name something: those the rest leads to from
the root, left to right. -/
structure Resolves (root rest : List UInt8) (out : CString) : Prop where
  bytes : out.bytes = putAll slash root (resolve dot [] (parts slash rest))
  plain : ∀ s ∈ resolve dot [] (parts slash rest), Plain slash dot s

theorem Resolves.of_fold (some : root ≠ []) (noNul : ∀ b ∈ root ++ rest, b ≠ 0) {bytes : List UInt8}
    (h : (parts slash rest).foldlM (takeSegment size root.length) root = .ok bytes) :
    Resolves root rest (.ofBytes bytes) := by
  have none : ∀ s ∈ ([] : List (List UInt8)), Plain slash dot s := nofun
  obtain ⟨whole, plain⟩ := takeSegments_ok some none (fun s there => ⟨(mem_parts there).1, (mem_parts there).2.1⟩) h
  refine ⟨?_, plain⟩
  rw [ofBytes_of_noNul, whole]
  rw [whole]
  refine noNul_putAll (fun b there => noNul b (mem_append_left _ there)) fun s there b inside => ?_
  have named := (mem_resolve there).resolve_left not_mem_nil
  exact noNul b (mem_append_right _ ((mem_parts named).2.2 inside))

theorem on_eq {path m : CString} (h : pathIsOnMount path m) : m.bytes <+: path.bytes ∧ (m.bytes = [slash] ∨
      path.bytes.drop m.strlen = [] ∨ ∃ after, path.bytes.drop m.strlen = slash :: after) := by
  have some := nonempty_of_on h
  unfold pathIsOnMount at h
  rw [if_neg some] at h
  split_ifs at h with root
  · obtain ⟨rest, whole⟩ := head?_eq_some_iff.mp (by simpa using h)
    refine ⟨?_, .inl root⟩
    rw [root, whole]
    exact prefix_append [slash] rest
  · simp only [Bool.decide_and, Bool.and_eq_true, decide_eq_true_eq] at h
    exact ⟨prefix_iff_eq_take.mpr h.1.symm, .inr (h.2.imp_right head?_eq_some_iff.mp)⟩

theorem on_of {path m : CString} (some : m.bytes ≠ []) (front : m.bytes <+: path.bytes) (ends : m.bytes = [slash] ∨
      path.bytes.drop m.strlen = [] ∨ ∃ after, path.bytes.drop m.strlen = slash :: after) : pathIsOnMount path m := by
  unfold pathIsOnMount
  rw [if_neg some]
  split_ifs with root
  · obtain ⟨rest, whole⟩ := front
    rw [← whole, root]
    rfl
  · have ends' := (ends.resolve_left root).imp_right head?_eq_some_iff.mpr
    simp only [Bool.decide_and, Bool.and_eq_true, decide_eq_true_eq]
    exact ⟨(prefix_iff_eq_take.mp front).symm, ends'⟩

theorem on_shorter {path other m n : CString} (hm : pathIsOnMount other m) (hn : pathIsOnMount other n)
    (longer : m.strlen < n.strlen) (h : pathIsOnMount path n) : pathIsOnMount path m := by
  obtain ⟨⟨back, whole⟩, -⟩ := on_eq h
  obtain ⟨⟨other', whole'⟩, -⟩ := on_eq hn
  obtain ⟨front, ends⟩ := on_eq hm
  obtain ⟨middle, same⟩ := prefix_of_prefix_length_le front ⟨other', whole'⟩ (le_of_lt longer)
  have some : middle ≠ [] := by
    rintro rfl
    rw [append_nil] at same
    unfold strlen at longer
    rw [same] at longer
    exact lt_irrefl _ longer
  refine on_of (nonempty_of_on hm) ⟨middle ++ back, by rw [← append_assoc, same, whole]⟩ ?_
  refine ends.imp_right fun ends => .inr ?_
  obtain ⟨c, middle, rfl⟩ := exists_cons_of_ne_nil some
  have dropped (p : CString) (rest : List UInt8) (whole : n.bytes ++ rest = p.bytes) :
      p.bytes.drop m.strlen = c :: middle ++ rest := by
    rw [← whole, ← same, append_assoc]
    exact drop_left
  rw [dropped path back whole]
  rw [dropped other other' whole'] at ends
  rcases ends with none | ⟨after, next⟩
  · cases none
  · rw [(List.cons.inj next).1]
    exact ⟨_, rfl⟩

variable {s : Mounts}

theorem root_le {path out : CString} (some : (s.bestMount path).bytes ≠ [])
    (on : pathIsOnMount out (s.bestMount path)) : (s.bestMount path).strlen ≤ (s.bestMount out).strlen := by
  obtain ⟨seen, onPath⟩ := (bestMount_best s path).found some
  have again := bestMount_best s out
  rcases seen with ⟨ramfs, noDefault⟩ | elsewhere
  · by_cases default : ∃ m, s.OnDefault m ∧ pathIsOnMount out m
    · obtain ⟨m, isDefault, onOut⟩ := default
      have reached := again.longest m (.inr (.inl isDefault)) onOut
      by_contra shorter
      refine noDefault ⟨m, isDefault, on_shorter onOut on ?_ onPath⟩
      omega
    · exact again.longest _ (.inl ⟨ramfs, default⟩) on
  · exact again.longest _ (.inr elsewhere) on

theorem bestMount_fits (s : Mounts) (path : CString) : (s.bestMount path).strlen < mountPointMax := by
  by_cases some : (s.bestMount path).bytes = []
  · unfold strlen
    rw [some]
    decide
  · obtain ⟨seen, -⟩ := (bestMount_best s path).found some
    rcases seen with ⟨⟨mount, -, same⟩, -⟩ | ⟨card, -, -, same⟩ | ⟨card, -, block, -, -, same⟩ | flash
    · rw [← same]
      exact lt_trans mount.fits (by decide)
    · rw [same]
      exact sdMountPoint.fits
    · rw [← same]
      exact block.mountPoint.fits
    · unfold Mounts.OnFlash at flash
      cases onFlash : s.flash with
      | some mount =>
        rw [onFlash] at flash
        rw [← flash]
        exact mount.fits
      | none =>
        rw [onFlash] at flash
        rw [← flash.2]
        exact s.flashDefaultMountPoint.fits

theorem pathMountPoint_max {path : CString} (some : (s.bestMount path).bytes ≠ []) (nonempty : path.bytes ≠ []) :
    s.pathMountPoint path mountPointMax = .ok (s.bestMount path) := by
  rw [pathMountPoint_eq nonempty (by decide), if_neg some, if_pos (bestMount_fits s path)]

theorem normalizePath_eq {path : CString} (some : (s.bestMount path).bytes ≠ []) (nonempty : path.bytes ≠ [])
    (room : (s.bestMount path).strlen < size) : s.normalizePath path size =
      ((parts slash (path.bytes.drop (s.bestMount path).strlen)).foldlM
        (takeSegment size (s.bestMount path).strlen) (s.bestMount path).bytes).map .ofBytes := by
  have positive : size ≠ 0 := Nat.ne_of_gt (Nat.lt_of_le_of_lt (Nat.zero_le _) room)
  unfold Mounts.normalizePath
  rw [if_neg (fun bad => bad.elim nonempty positive), pathMountPoint_max some nonempty]
  have loop := normalizeLoop_eq size (s.bestMount path).strlen (s.bestMount path).bytes
    ((path.bytes.drop (s.bestMount path).strlen).dropWhile (· = slash))
  rw [parts_dropWhile] at loop
  rw [← loop]
  exact if_neg (not_le.mpr room)

theorem normalizePath_ok {path out : CString} (h : s.normalizePath path size = .ok out) :
    path.bytes ≠ [] ∧ (s.bestMount path).bytes ≠ [] ∧ out.strlen < size ∧
      Resolves (s.bestMount path).bytes (path.bytes.drop (s.bestMount path).strlen) out := by
  have nonempty : path.bytes ≠ [] := by
    intro none
    unfold Mounts.normalizePath at h
    rw [if_pos (.inl none)] at h
    cases h
  have parts : ∃ root, s.pathMountPoint path mountPointMax = .ok root ∧ root.strlen < size := by
    unfold Mounts.normalizePath at h
    split_ifs at h
    cases lookup : s.pathMountPoint path mountPointMax with
    | error fault =>
      rw [lookup] at h
      cases h
    | ok root =>
      refine ⟨root, rfl, not_le.mp fun long => ?_⟩
      have failed : (Except.error .invalidSize : Except EspErr CString) = .ok out := by
        rw [← h, lookup]
        exact (if_pos long).symm
      cases failed
  obtain ⟨root, lookup, room⟩ := parts
  have some : (s.bestMount path).bytes ≠ [] := by
    intro none
    rw [pathMountPoint_eq nonempty (by decide), if_pos none] at lookup
    cases lookup
  rw [pathMountPoint_max some nonempty] at lookup
  cases lookup
  rw [normalizePath_eq some nonempty room] at h
  cases loop : (parts slash (path.bytes.drop (s.bestMount path).strlen)).foldlM
      (takeSegment size (s.bestMount path).strlen) (s.bestMount path).bytes with
  | error fault =>
    rw [loop] at h
    cases h
  | ok bytes =>
    rw [loop] at h
    cases h
    refine ⟨nonempty, some, ?_, Resolves.of_fold some (fun b there => ?_) loop⟩
    · exact lt_of_le_of_lt ( takeWhile_prefix _).length_le (takeSegments_fit room loop)
    rcases mem_append.mp there with root | rest
    · exact (s.bestMount path).noNul b root
    · exact path.noNul b (mem_of_mem_drop rest)

theorem Resolves.on {m out : CString} (h : Resolves m.bytes rest out) (some : m.bytes ≠ []) : pathIsOnMount out m := by
  refine on_of some (by rw [h.bytes]; exact prefix_putAll _ _ _) ?_
  by_cases root : m.bytes = [slash]
  · exact .inl root
  · right
    have bytes := h.bytes
    unfold strlen
    generalize resolve dot [] (parts slash rest) = segments at bytes
    rw [bytes]
    cases segments with
    | nil => exact .inl drop_length
    | cons first segments =>
      obtain ⟨more, whole⟩ := prefix_putAll slash (put slash m.bytes first) segments
      have out : putAll slash m.bytes (first :: segments) = m.bytes ++ slash :: (first ++ more) := by
        have first' : putAll slash m.bytes (first :: segments) = putAll slash (put slash m.bytes first) segments := rfl
        rw [first', ← whole, put_eq, stem, if_neg root, append_assoc, cons_append]
      exact .inr ⟨first ++ more, by rw [out, drop_left]⟩

theorem Resolves.again {m n out : CString} (h : Resolves m.bytes rest out) (on : pathIsOnMount out n)
    (le : m.strlen ≤ n.strlen) (some : m.bytes ≠ []) :
    putAll slash n.bytes (parts slash (out.bytes.drop n.strlen)) = out.bytes ∧
      ∀ s ∈ parts slash (out.bytes.drop n.strlen), Plain slash dot s := by
  obtain ⟨front, ends⟩ := on_eq on
  have front' := (on_eq (h.on some)).1
  rcases Nat.eq_or_lt_of_le le with same | longer
  · have bytes : m.bytes = n.bytes := (prefix_of_prefix_length_le front' front le).eq_of_length same
    have read : parts slash (out.bytes.drop n.strlen) = resolve dot [] (parts slash rest) := by
      rw [h.bytes, ← same]
      exact parts_drop_putAll m.bytes h.plain
    rw [read, ← bytes]
    exact ⟨h.bytes.symm, h.plain⟩
  · have notTop : n.bytes ≠ [slash] := by
      intro top
      have short : n.strlen = 1 := by
        unfold strlen
        rw [top]
        rfl
      have := strlen_pos some
      omega
    have whole : n.bytes ++ out.bytes.drop n.strlen = putAll slash m.bytes (resolve dot [] (parts slash rest)) := by
      rw [← h.bytes]
      obtain ⟨back, same⟩ := front
      rw [← same, strlen, drop_left]
    have split := putAll_split h.plain whole longer (ends.resolve_left notTop)
    rw [← h.bytes] at split
    exact split

theorem normalizePath_again {path out : CString} (h : s.normalizePath path size = .ok out) :
    s.normalizePath out size = .ok out := by
  obtain ⟨-, some, fits, resolves⟩ := normalizePath_ok h
  have on := resolves.on some
  have le := root_le some on
  have some' : (s.bestMount out).bytes ≠ [] := length_pos_iff.mp (lt_of_lt_of_le (strlen_pos some) le)
  obtain ⟨-, on'⟩ := (bestMount_best s out).found some'
  obtain ⟨whole, plain⟩ := resolves.again on' le some
  have nonempty : out.bytes ≠ [] := fun none => some (prefix_nil.mp (none ▸ (on_eq on).1))
  have shorter : (s.bestMount out).strlen ≤ out.strlen := (on_eq on').1.length_le
  have filled := takeSegments_plain plain (by rw [whole]; exact fits) (s.bestMount out).strlen
  rw [whole] at filled
  rw [normalizePath_eq some' nonempty (lt_of_le_of_lt shorter fits), filled]
  exact congrArg Except.ok (ext_bytes (ofBytes_of_noNul out.noNul))

/-- The base without the slashes at its end, but for a first one. -/
structure Trimmed (base root : List UInt8) : Prop where
  slashes : ∃ k, base = root ++ List.replicate k slash
  last : root = [slash] ∨ root.getLast? ≠ some slash

theorem trimmedLen_spec (base : List UInt8) {len : Nat} (some : 0 < len) (inside : len ≤ base.length) :
    0 < trimmedLen base len ∧ trimmedLen base len ≤ len ∧
      Trimmed (base.take len) (base.take (trimmedLen base len)) := by
  induction len using trimmedLen.induct base with
  | case1 => exact absurd some (lt_irrefl 0)
  | case2 =>
    obtain ⟨c, base, rfl⟩ := exists_cons_of_length_pos inside
    refine ⟨Nat.one_pos, Nat.le_refl 1, ⟨0, (append_nil _).symm⟩, ?_⟩
    by_cases root : c = slash
    · exact .inl (by rw [root]; rfl)
    · exact .inr fun last => root (Option.some.inj last)
  | case3 len last ih =>
    obtain ⟨positive, shorter, ⟨k, slashes⟩, trimmed⟩ := ih (Nat.succ_pos len) (Nat.le_of_succ_le inside)
    rw [trimmedLen, if_pos last]
    refine ⟨positive, Nat.le_succ_of_le shorter, ⟨k + 1, ?_⟩, trimmed⟩
    obtain ⟨there, same⟩ := List.getElem?_eq_some_iff.mp last
    rw [take_succ_eq_append_getElem there, slashes, same, append_assoc, replicate_succ']
  | case4 len last =>
    rw [trimmedLen, if_neg last]
    refine ⟨Nat.succ_pos _, le_rfl, ⟨0, (append_nil _).symm⟩, .inr ?_⟩
    rw [getLast?_take, if_neg (Nat.succ_ne_zero _)]
    obtain ⟨c, there⟩ : ∃ c, base[len + 1]? = Option.some c := ⟨_, getElem?_eq_getElem inside⟩
    rw [there] at last
    intro same
    exact last ((congrArg (Option.or · base.getLast?) there).symm.trans same)

theorem joinPath_ok {base out : CString} {relative : Option CString} (h : joinPath base relative size = .ok out) :
    ∃ root, root ≠ [] ∧ Trimmed base.bytes root ∧ Resolves root (relative.elim [] (·.bytes)) out := by
  unfold joinPath at h
  by_cases bad : base.bytes.head? ≠ some slash ∨ size = 0
  · rw [if_pos bad] at h
    cases h
  rw [if_neg bad] at h
  rw [not_or, not_not] at bad
  have positive : 0 < base.strlen := strlen_pos (ne_nil_of_mem (mem_of_mem_head? bad.1))
  obtain ⟨kept, inside, trimmed⟩ := trimmedLen_spec base.bytes positive (le_rfl)
  generalize trimmedLen base.bytes base.strlen = len at h kept inside trimmed
  rw [strlen, take_length] at trimmed
  have rootLen : (base.bytes.take len).length = len := length_take_of_le inside
  have some : base.bytes.take len ≠ [] := length_pos_iff.mp (by rw [rootLen]; exact kept)
  have noNul : ∀ b ∈ base.bytes.take len, b ≠ 0 := fun b there => base.noNul b (mem_of_mem_take there)
  refine ⟨base.bytes.take len, some, trimmed, ?_⟩
  by_cases long : len ≥ size
  · simp only [if_pos long] at h
    cases h
  simp only [if_neg long] at h
  cases relative with
  | none =>
    cases h
    exact @Resolves.of_fold size _ [] some (by simpa using noNul) _ rfl
  | some cursor =>
    simp only [joinLoop_eq] at h
    cases loop : (parts slash cursor.bytes).foldlM (takeSegment size len) (base.bytes.take len) with
    | error fault =>
      rw [loop] at h
      cases h
    | ok bytes =>
      rw [loop] at h
      cases h
      refine Resolves.of_fold some (fun b there => ?_) (by rwa [rootLen])
      exact (mem_append.mp there).elim (noNul b) (cursor.noNul b)

/-- Normalised and joined paths lie below their root, and a normalised path stays as it is. -/
theorem paths_contained (s : Mounts) (size : Nat) : (∀ path out, s.normalizePath path size = .ok out →
      (∃ root rest, s.pathMountPoint path mountPointMax = .ok root ∧ path.bytes = root.bytes ++ rest ∧
        Resolves root.bytes rest out) ∧
      s.normalizePath out size = .ok out) ∧ ∀ base relative out, joinPath base relative size = .ok out →
      ∃ root, root ≠ [] ∧ Trimmed base.bytes root ∧ Resolves root (relative.elim [] (·.bytes)) out := by
  constructor
  · intro path out h
    obtain ⟨nonempty, some, -, resolves⟩ := normalizePath_ok h
    refine ⟨⟨s.bestMount path, _, pathMountPoint_max some nonempty, ?_, resolves⟩, normalizePath_again h⟩
    obtain ⟨rest, whole⟩ := (on_eq ((bestMount_best s path).found some).2).1
    rw [← whole, strlen, drop_left]
  · exact fun base relative out h => joinPath_ok h

/-- `/sdcard/../r//./f` and `r//../f`. -/
def dotted : CString :=
  ⟨[47, 115, 100, 99, 97, 114, 100, 47, 46, 46, 47, 114, 47, 47, 46, 47, 102], by decide⟩

def dottedTail : CString := ⟨[114, 47, 47, 46, 46, 47, 102], by decide⟩

/-- `/sdcard/r/f` and `/sdcard/f`. -/
theorem paths_contained_dotted : ((∃ root rest, ramOnCard.pathMountPoint dotted mountPointMax = .ok root ∧
        dotted.bytes = root.bytes ++ rest ∧ Resolves root.bytes rest fileInRam) ∧
      ramOnCard.normalizePath fileInRam 160 = .ok fileInRam) ∧
    ∃ root, root ≠ [] ∧ Trimmed sdMountPoint.path.bytes root ∧
      Resolves root dottedTail.bytes ⟨[47, 115, 100, 99, 97, 114, 100, 47, 102], by decide⟩ :=
  ⟨(paths_contained ramOnCard 160).1 dotted fileInRam (by decide +kernel),
    (paths_contained ramOnCard 160).2 sdMountPoint.path (some dottedTail) _ (by decide +kernel)⟩

end SolarOs.StoragePath
