import SolarOs.Contacts.Storable
import SolarOs.Contacts.Calls

/-! What a start reads from a file: the record of the newest header that fits its record. -/
namespace SolarOs.Contacts
open Function List

variable {crc32 : StoreData → Nat} {image : Image}

/-- A header is in its own place and a record can be read back. -/
structure Image.Placed (image : Image) (bound : Nat) : Prop where
  header : ∀ i h, image.headers i = some h →
    h.dataSlot = i ∧ Fin.ofNat 2 h.generation = i ∧ h.generation ≠ 0 ∧ h.generation ≤ bound
  data : ∀ i d, image.data i = some d → storeDataValid d = true

def Image.Fits (crc32 : StoreData → Nat) (image : Image) (i : Fin 2) (h : Header) (d : StoreData) : Prop :=
  image.headers i = some h ∧ image.data i = some d ∧ h.dataCrc = crc32 d

theorem generationNewer_iff {first second : Nat} (hf : first < 2147483648) (hs : second < 2147483648) :
    generationNewer first second = true ↔ second < first := by
  simp only [generationNewer, Bool.and_eq_true, decide_eq_true_eq]
  omega

theorem slot_cases (i j : Fin 2) : j = i ∨ j = i + 1 := by omega

@[simp] theorem slot_back (i : Fin 2) : i + 1 + 1 = i := by omega

variable {d : StoreData}

theorem restoreFrom_some {h h' : Header} (found : restoreFrom crc32 image h = some (h', d)) :
    h' = h ∧ image.data h.dataSlot = some d ∧ h.dataCrc = crc32 d := by
  unfold restoreFrom at found
  split at found
  · split at found
    · rename_i data hdata fits
      cases found
      exact ⟨rfl, hdata, fits.1⟩
    · cases found
  · cases found

variable {bound : Nat}

section
variable (placed : image.Placed bound)
include placed

theorem restoreFrom_fits {i : Fin 2} {h : Header}
    (fits : image.Fits crc32 i h d) : restoreFrom crc32 image h = some (h, d) := by
  obtain ⟨hh, hd, crc⟩ := fits
  unfold restoreFrom
  rw [(placed.header i h hh).1, hd]
  exact if_pos ⟨crc, placed.data i d hd⟩

theorem restoreOrder_cases (small : bound < 2147483648) :
    (∀ i, image.headers i = none → restoreOrder image = (image.headers (i + 1)).toList) ∧
      ∀ i h h', image.headers i = some h → image.headers (i + 1) = some h' →
        h'.generation < h.generation → restoreOrder image = [h, h'] := by
  have kept : ∀ i, (image.headers i).filter (fun h => h.generation ≠ 0) = image.headers i := by
    intro i
    cases hi : image.headers i with
    | none => rfl
    | some h => simp [(placed.header i h hi).2.2.1]
  constructor
  · intro i hi
    simp only [restoreOrder, kept]
    rcases slot_cases 0 i with rfl | rfl
    · rw [hi]
      show _ = (image.headers 1).toList
      cases image.headers 1 <;> rfl
    · rw [show (0 + 1 : Fin 2) = 1 from rfl] at hi ⊢
      rw [hi]
      cases h : image.headers 0 <;> simp [h]
  · intro i h h' hi hi' older
    have bounds := (placed.header i h hi).2.2.2
    simp only [restoreOrder, kept]
    rcases slot_cases 0 i with rfl | rfl
    · rw [hi, show image.headers 1 = some h' from hi']
      simp only
      rw [if_neg]
      rw [generationNewer_iff (by omega) (by omega)]
      omega
    · rw [show image.headers 1 = some h from hi, show image.headers 0 = some h' from hi']
      simp only
      rw [if_pos ((generationNewer_iff (by omega) (by omega)).mpr older)]

theorem Image.Placed.apart {i : Fin 2} {h h' : Header} (hh : image.headers i = some h)
    (hh' : image.headers (i + 1) = some h') : h'.generation ≠ h.generation := by
  intro same
  have parity := (placed.header i h hh).2.1
  have parity' := (placed.header (i + 1) h' hh').2.1
  rw [same, parity] at parity'
  omega

theorem restore_some (small : bound < 2147483648) {h : Header}
    (found : restore crc32 image = some (h, d)) : image.Fits crc32 h.dataSlot h d ∧
      ∀ h' d', image.Fits crc32 (h.dataSlot + 1) h' d' → h'.generation < h.generation := by
  obtain ⟨alone, both⟩ := restoreOrder_cases placed small
  have member : ∃ i, image.headers i = some h ∧ restoreFrom crc32 image h = some (h, d) := by
    obtain ⟨x, hx, read⟩ := exists_of_findSome?_eq_some found
    have same := (restoreFrom_some read).1
    subst same
    cases h0 : image.headers 0 with
    | none =>
      rw [alone 0 h0, Option.mem_toList] at hx
      exact ⟨_, hx, read⟩
    | some a =>
      cases h1 : image.headers 1 with
      | none =>
        rw [alone 1 h1, Option.mem_toList] at hx
        exact ⟨_, hx, read⟩
      | some b =>
        have differ := placed.apart h0 (show image.headers (0 + 1) = some b from h1)
        rcases Nat.lt_or_gt_of_ne differ with older | older
        · rw [both 0 a b h0 h1 older] at hx
          rcases mem_cons.mp hx with rfl | hx
          · exact ⟨0, h0, read⟩
          · exact ⟨1, (mem_singleton.mp hx) ▸ h1, read⟩
        · rw [both 1 b a h1 h0 older] at hx
          rcases mem_cons.mp hx with rfl | hx
          · exact ⟨1, h1, read⟩
          · exact ⟨0, (mem_singleton.mp hx) ▸ h0, read⟩
  obtain ⟨i, hi, read⟩ := member
  have slot := (placed.header i h hi).1
  obtain ⟨-, data, crc⟩ := restoreFrom_some read
  refine ⟨⟨slot ▸ hi, data, crc⟩, ?_⟩
  intro h' d' fits'
  rw [slot] at fits'
  have differ := placed.apart hi fits'.1
  by_contra newer
  have older : h.generation < h'.generation := by omega
  have order := both (i + 1) h' h fits'.1 (by rwa [slot_back]) older
  rw [restore, order, findSome?_cons, restoreFrom_fits placed fits'] at found
  cases found
  exact absurd older (lt_irrefl _)

theorem restore_isSome (small : bound < 2147483648) {i : Fin 2} {h : Header}
    (fits : image.Fits crc32 i h d) : (restore crc32 image).isSome = true := by
  obtain ⟨alone, both⟩ := restoreOrder_cases placed small
  have tried : h ∈ restoreOrder image := by
    cases h' : image.headers (i + 1) with
    | none =>
      rw [alone (i + 1) h', slot_back, fits.1]
      simp
    | some x =>
      rcases Nat.lt_or_gt_of_ne (placed.apart fits.1 h') with older | older
      · rw [both i h x fits.1 h' older]
        simp
      · rw [both (i + 1) x h h' (by rw [slot_back]; exact fits.1) older]
        simp
  rw [restore, findSome?_isSome_iff]
  exact ⟨h, tried, by rw [restoreFrom_fits placed fits]; rfl⟩

end

end SolarOs.Contacts

/-! What the file keeps while records are written to it in turn: the record that counts, and
beside it older ones or later ones. -/
namespace SolarOs.Contacts
open Function List

variable {crc32 : StoreData → Nat} {disk disk' : Disk} {snapshots : List StoreData} {g : Nat}
  {σ : Fin 2} {base : Option Nat} {d : StoreData}

/-- The file counts from generation `g` in slot `σ`, which holds the record `base` if there
is one that counts. -/
structure Disk.Holds (crc32 : StoreData → Nat) (disk : Disk) (snapshots : List StoreData) (g : Nat)
    (σ : Fin 2) (base : Option Nat) : Prop where
  placed : ∀ i h, some h ∈ disk.headers i → h.dataSlot = i ∧ Fin.ofNat 2 h.generation = i ∧
    h.generation ≠ 0 ∧ h.generation ≤ snapshots.length
  recorded : ∀ i d, some d ∈ disk.data i → d ∈ snapshots
  current : ∀ b, base = some b → ∃ h d, snapshots[b]? = some d ∧ disk.headers σ = [some h] ∧
    disk.data σ = [some d] ∧ h.generation = g ∧ h.dataCrc = crc32 d
  other : ∀ b, base = some b → ∀ h d, some h ∈ disk.headers (σ + 1) → some d ∈ disk.data (σ + 1) →
    h.dataCrc = crc32 d → h.generation < g ∨ ∃ k, b ≤ k ∧ snapshots[k]? = some d
  blank : base = none → ∀ h d, some h ∈ disk.headers σ → some d ∈ disk.data σ → h.dataCrc ≠ crc32 d

theorem Disk.blank_holds (crc32 : StoreData → Nat) (snapshots : List StoreData) (g : Nat) (σ : Fin 2) :
    Disk.blank.Holds crc32 snapshots g σ none where
  placed := by simp [Disk.blank]
  recorded := by simp [Disk.blank]
  current := nofun
  other := nofun
  blank := by simp [Disk.blank]

theorem slot_ne (i : Fin 2) : i ≠ i + 1 := by omega

section
variable (h : disk.Holds crc32 snapshots g σ base)
include h

theorem Disk.Holds.grow (d : StoreData) : disk.Holds crc32 (snapshots ++ [d]) g σ base where
  placed := by
    intro i x hx
    obtain ⟨slot, parity, nonzero, bounded⟩ := h.placed i x hx
    exact ⟨slot, parity, nonzero, by rw [length_append]; omega⟩
  recorded := fun i x hx => mem_append_left _ (h.recorded i x hx)
  current := by
    intro b hb
    obtain ⟨x, y, record, rest⟩ := h.current b hb
    exact ⟨x, y, by rw [getElem?_append_left (List.getElem?_eq_some_iff.mp record).1]; exact record,
      rest⟩
  other := by
    intro b hb x y hx hy crc
    rcases h.other b hb x y hx hy crc with older | ⟨k, later, record⟩
    · exact .inl older
    · refine .inr ⟨k, later, ?_⟩
      rw [getElem?_append_left (List.getElem?_eq_some_iff.mp record).1]
      exact record
  blank := h.blank

theorem Disk.Holds.shrink (headers : ∀ i x, x ∈ disk'.headers i → x ∈ disk.headers i)
    (data : ∀ i x, x ∈ disk'.data i → x ∈ disk.data i) (header : ∀ x, disk.headers σ = [x] → disk'.headers σ = [x])
    (record : ∀ x, disk.data σ = [x] → disk'.data σ = [x]) : disk'.Holds crc32 snapshots g σ base where
  placed := fun i x hx => h.placed i x (headers i _ hx)
  recorded := fun i x hx => h.recorded i x (data i _ hx)
  current := by
    intro b hb
    obtain ⟨x, y, hrecord, hheaders, hdata, rest⟩ := h.current b hb
    exact ⟨x, y, hrecord, header _ hheaders, record _ hdata, rest⟩
  other := fun b hb x y hx hy crc => h.other b hb x y (headers _ _ hx) (data _ _ hy) crc
  blank := fun none x y hx hy => h.blank none x y (headers _ _ hx) (data _ _ hy)

theorem base_le_last {b : Nat} (hb : base = some b) : b ≤ snapshots.length - 1 := by
  obtain ⟨x, y, record, -⟩ := h.current b hb
  have := (List.getElem?_eq_some_iff.mp record).1
  omega

end

theorem last_record (last : snapshots.getLast? = some d) : snapshots[snapshots.length - 1]? = some d := by
  rwa [← getLast?_eq_getElem?]

theorem Disk.Holds.writeData (h : disk.Holds crc32 snapshots g σ base)
    (last : snapshots.getLast? = some d) : (disk.writeData (σ + 1) d).Holds crc32 snapshots g σ base := by
  have cells : ∀ i x, some x ∈ (disk.writeData (σ + 1) d).data i →
      some x ∈ disk.data i ∨ x = d := by
    intro i x hx
    simp only [Disk.writeData, update_apply] at hx
    split at hx
    · rename_i here
      simp only [Cell.write, mem_cons, Option.some.injEq, reduceCtorEq, false_or] at hx
      rcases hx with same | old
      · exact .inr same
      · exact .inl (here ▸ old)
    · exact .inl hx
  have slot : (disk.writeData (σ + 1) d).data σ = disk.data σ := update_of_ne (slot_ne σ) ..
  constructor
  case placed => exact h.placed
  case recorded =>
    intro i x hx
    rcases cells i x hx with old | rfl
    · exact h.recorded i x old
    · exact mem_of_getLast? last
  case current =>
    intro b hb
    rw [slot]
    exact h.current b hb
  case other =>
    intro b hb x y hx hy crc
    rcases cells _ y hy with old | rfl
    · exact h.other b hb x y hx old crc
    · exact .inr ⟨_, base_le_last h hb, last_record last⟩
  case blank =>
    intro none x y hx hy
    rw [slot] at hy
    exact h.blank none x y hx hy

theorem Disk.Holds.writeHeader (h : disk.Holds crc32 snapshots g σ base) {header : Header}
    (last : snapshots.getLast? = some d) (written : disk.data (σ + 1) = [some d])
    (slot : header.dataSlot = σ + 1) (parity : Fin.ofNat 2 header.generation = σ + 1)
    (nonzero : header.generation ≠ 0) (bounded : header.generation ≤ snapshots.length) :
    (disk.writeHeader (σ + 1) header).Holds crc32 snapshots g σ base := by
  have cells : ∀ i x, some x ∈ (disk.writeHeader (σ + 1) header).headers i →
      some x ∈ disk.headers i ∨ (i = σ + 1 ∧ x = header) := by
    intro i x hx
    simp only [Disk.writeHeader, update_apply] at hx
    split at hx
    · rename_i here
      simp only [Cell.write, mem_cons, Option.some.injEq, reduceCtorEq, false_or] at hx
      rcases hx with same | old
      · exact .inr ⟨here, same⟩
      · exact .inl (here ▸ old)
    · exact .inl hx
  have away : (disk.writeHeader (σ + 1) header).headers σ = disk.headers σ := update_of_ne (slot_ne σ) ..
  constructor
  case placed =>
    intro i x hx
    rcases cells i x hx with old | ⟨rfl, rfl⟩
    · exact h.placed i x old
    · exact ⟨slot, parity, nonzero, bounded⟩
  case recorded => exact h.recorded
  case current =>
    intro b hb
    rw [away]
    exact h.current b hb
  case other =>
    intro b hb x y hx hy crc
    rcases cells _ x hx with old | -
    · exact h.other b hb x y old hy crc
    · have : some y ∈ [some d] := written ▸ hy
      cases mem_singleton.mp this
      exact .inr ⟨_, base_le_last h hb, last_record last⟩
  case blank =>
    intro none x y hx hy
    rw [away] at hx
    exact h.blank none x y hx hy

theorem Cell.sync_update {ι α : Type} [DecidableEq ι] {cells : ι → Cell α} (slot i : ι) :
    (∀ x ∈ update cells slot (cells slot).sync i, x ∈ cells i) ∧
      ∀ x, cells i = [x] → update cells slot (cells slot).sync i = [x] := by
  rw [update_apply]
  split
  · rename_i here
    rw [← here]
    exact ⟨fun x => mem_of_mem_take, fun x alone => congrArg Cell.sync alone⟩
  · exact ⟨fun x there => there, fun x alone => alone⟩

section
variable (h : disk.Holds crc32 snapshots g σ base)
include h

theorem Disk.Holds.sync (place : Place) : (disk.sync place).Holds crc32 snapshots g σ base := by
  cases place with
  | header slot =>
    exact h.shrink (fun i x => (Cell.sync_update slot i).1 x) (fun _ _ hx => hx) (Cell.sync_update slot σ).2 fun _ same => same
  | data slot =>
    exact h.shrink (fun _ _ hx => hx) (fun i x => (Cell.sync_update slot i).1 x) (fun _ same => same) (Cell.sync_update slot σ).2

theorem Disk.Holds.advance {header : Header}
    (last : snapshots.getLast? = some d) (written : disk.data (σ + 1) = [some d])
    (headed : disk.headers (σ + 1) = [some header]) (generation : header.generation = g + 1)
    (crc : header.dataCrc = crc32 d) : disk.Holds crc32 snapshots (g + 1) (σ + 1) (some (snapshots.length - 1)) where
  placed := h.placed
  recorded := h.recorded
  current := by
    intro b hb
    cases hb
    exact ⟨header, d, last_record last, headed, written, generation, crc⟩
  other := by
    intro b hb x y hx hy fits
    rw [slot_back] at hx hy
    cases base with
    | none => exact absurd fits (h.blank rfl x y hx hy)
    | some k =>
      obtain ⟨z, -, -, alone, -, older, -⟩ := h.current k rfl
      rw [alone] at hx
      cases mem_singleton.mp hx
      exact .inl (by omega)
  blank := nofun

variable {image : Image}

theorem Disk.Holds.settle (leaves : disk.Leaves image) : image.settled.Holds crc32 snapshots g σ base := by
  refine h.shrink ?_ ?_ ?_ ?_
  · intro i x hx
    exact mem_singleton.mp hx ▸ (leaves i).1
  · intro i x hx
    exact mem_singleton.mp hx ▸ (leaves i).2
  · intro x alone
    have := (leaves σ).1
    rw [alone] at this
    exact congrArg (fun y => [y]) (mem_singleton.mp this)
  · intro x alone
    have := (leaves σ).2
    rw [alone] at this
    exact congrArg (fun y => [y]) (mem_singleton.mp this)

section
variable (valid : ∀ d ∈ snapshots, storeDataValid d = true)
include valid

theorem Disk.Holds.image_placed (leaves : disk.Leaves image) : image.Placed snapshots.length where
  header := fun i x hx => h.placed i x (hx ▸ (leaves i).1)
  data := fun i x hx => valid x (h.recorded i x (hx ▸ (leaves i).2))

theorem Disk.Holds.restored (few : snapshots.length < 2147483648)
    (leaves : disk.Leaves image) {header : Header} (found : restore crc32 image = some (header, d)) :
    ∃ k, snapshots[k]? = some d ∧ (∀ b, base = some b → b ≤ k) ∧
      image.settled.Holds crc32 snapshots header.generation header.dataSlot (some k) := by
  have placed := h.image_placed valid leaves
  obtain ⟨⟨hheader, hdata, crc⟩, older⟩ := restore_some placed few found
  have settled := h.settle leaves
  have counts : ∀ k, snapshots[k]? = some d →
      image.settled.Holds crc32 snapshots header.generation header.dataSlot (some k) := by
    intro k record
    constructor
    case placed => exact settled.placed
    case recorded => exact settled.recorded
    case current =>
      intro b hb
      cases hb
      exact ⟨header, d, record, by simp [Image.settled, hheader], by simp [Image.settled, hdata], rfl,
        crc⟩
    case other =>
      intro b _ x y hx hy fits
      exact .inl (older x y ⟨(mem_singleton.mp hx).symm, (mem_singleton.mp hy).symm, fits⟩)
    case blank => nofun
  cases base with
  | none =>
    obtain ⟨k, record⟩ := getElem?_of_mem (h.recorded _ d (hdata ▸ (leaves _).2))
    exact ⟨k, record, nofun, counts k record⟩
  | some b =>
    obtain ⟨x, y, record, hx, hy, generation, fits⟩ := settled.current b rfl
    simp only [Image.settled, List.cons.injEq, and_true] at hx hy
    rcases slot_cases σ header.dataSlot with same | other
    · rw [same, hy] at hdata
      cases hdata
      exact ⟨b, record, fun c hc => by cases hc; exact le_rfl, counts b record⟩
    · rw [other] at hheader hdata older
      have newer : g < header.generation := by
        rw [← generation]
        exact older x y ⟨by rw [slot_back]; exact hx, by rw [slot_back]; exact hy, fits⟩
      rcases h.other b rfl header d (hheader ▸ (leaves _).1) (hdata ▸ (leaves _).2) crc with
        past | ⟨k, later, record⟩
      · omega
      · exact ⟨k, record, fun c hc => by cases hc; exact later, counts k record⟩

theorem Disk.Holds.restorable (few : snapshots.length < 2147483648)
    (leaves : disk.Leaves image) {b : Nat} (hb : base = some b) :
    ∃ header d, restore crc32 image = some (header, d) := by
  obtain ⟨x, y, -, hx, hy, -, fits⟩ := (h.settle leaves).current b hb
  simp only [Image.settled, List.cons.injEq, and_true] at hx hy
  obtain ⟨r, found⟩ := Option.isSome_iff_exists.mp
    (restore_isSome (h.image_placed valid leaves) few (i := σ) ⟨hx, hy, fits⟩)
  exact ⟨r.1, r.2, found⟩

theorem Disk.Holds.unrestored (few : snapshots.length < 2147483648)
    (leaves : disk.Leaves image) (nothing : restore crc32 image = none) :
    base = none ∧ image.settled.Holds crc32 snapshots 0 0 none := by
  have settled := h.settle leaves
  constructor
  · cases base with
    | none => rfl
    | some b =>
      obtain ⟨header, d, found⟩ := h.restorable valid few leaves rfl
      rw [nothing] at found
      cases found
  · constructor
    case placed => exact settled.placed
    case recorded => exact settled.recorded
    case current => nofun
    case other => nofun
    case blank =>
      intro _ x y hx hy fits
      have := restore_isSome (h.image_placed valid leaves) few
        ⟨(mem_singleton.mp hx).symm, (mem_singleton.mp hy).symm, fits⟩
      rw [nothing] at this
      cases this

end

end

end SolarOs.Contacts
