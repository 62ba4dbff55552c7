import Hypern.Lib.Fallible
import Hypern.Lib.Pages

/-! `paginate` of `pagination.rs`, with its `u64` arithmetic. -/

namespace Hypern.Utils

open Lib

inductive Panic
  | overflow | assertion
  deriving DecidableEq

section

variable (overflowChecks : Bool)

/-- `a + b` of two `u64`, which wraps where overflow is not checked. -/
def addU64 (a b : UInt64) : Except Panic UInt64 :=
  if overflowChecks && decide (2 ^ 64 ≤ a.toNat + b.toNat) then .error .overflow else .ok (a + b)

def subU64 (a b : UInt64) : Except Panic UInt64 :=
  if overflowChecks && decide (a.toNat < b.toNat) then .error .overflow else .ok (a - b)

def mulU64 (a b : UInt64) : Except Panic UInt64 :=
  if overflowChecks && decide (2 ^ 64 ≤ a.toNat * b.toNat) then .error .overflow else .ok (a * b)

/-- `u64::clamp`, which asserts that the bounds are in order. -/
def clampU64 (x lo hi : UInt64) : Except Panic UInt64 :=
  if hi < lo then .error .assertion
  else .ok (if x < lo then lo else if hi < x then hi else x)

structure PageInfo where
  total : UInt64
  page : UInt64
  perPage : UInt64
  totalPages : UInt64
  hasNext : Bool
  hasPrev : Bool
  offset : UInt64
  fromItem : UInt64
  toItem : UInt64

def countPages (total perPage : UInt64) : Except Panic UInt64 :=
  if total = 0 then .ok 1
  else do
    let sum ← addU64 overflowChecks total perPage
    let top ← subU64 overflowChecks sum 1
    .ok (top / perPage)

/-- The first and the last item on a page. -/
def itemRange (total perPage offset : UInt64) : Except Panic (UInt64 × UInt64) :=
  if total = 0 then .ok (0, 0)
  else do
    let fromItem ← addU64 overflowChecks offset 1
    let stop ← addU64 overflowChecks offset perPage
    .ok (fromItem, min stop total)

def paginate (total page perPage : UInt64) : Except Panic PageInfo := do
  let perPage ← clampU64 perPage 1 10000
  let totalPages ← countPages overflowChecks total perPage
  let page ← clampU64 page 1 totalPages
  let before ← subU64 overflowChecks page 1
  let offset ← mulU64 overflowChecks before perPage
  let (fromItem, toItem) ← itemRange overflowChecks total perPage offset
  .ok {
    total := total
    page := page
    perPage := perPage
    totalPages := totalPages
    hasNext := decide (page < totalPages)
    hasPrev := decide (1 < page)
    offset := offset
    fromItem := fromItem
    toItem := toItem }

end

/-! ## What is computed -/

/-- The number of items on a page that `paginate` goes by. -/
def itemsPerPage (perPage : UInt64) : Nat := max 1 (min perPage.toNat 10000)

/-- Rounding up to whole pages stays below `2 ^ 64`. -/
def Fits (total perPage : UInt64) : Prop :=
  total = 0 ∨ total.toNat + itemsPerPage perPage < 2 ^ 64

instance (total perPage : UInt64) : Decidable (Fits total perPage) :=
  inferInstanceAs (Decidable (_ ∨ _))

section

variable {checks : Bool} {a b x lo hi : UInt64}

theorem addU64_ok (checks : Bool) (h : a.toNat + b.toNat < 2 ^ 64) :
    addU64 checks a b = .ok (a + b) ∧ (a + b).toNat = a.toNat + b.toNat := by
  refine ⟨by simpa [addU64] using fun _ => h, ?_⟩
  rw [UInt64.toNat_add]
  exact Nat.mod_eq_of_lt h

theorem addU64_overflow (h : 2 ^ 64 ≤ a.toNat + b.toNat) : addU64 true a b = .error .overflow := by
  simpa [addU64] using h

theorem subU64_ok (checks : Bool) (h : b.toNat ≤ a.toNat) :
    subU64 checks a b = .ok (a - b) ∧ (a - b).toNat = a.toNat - b.toNat := by
  refine ⟨by simpa [subU64] using fun _ => h, ?_⟩
  exact UInt64.toNat_sub_of_le _ _ (UInt64.le_iff_toNat_le.mpr h)

theorem mulU64_ok (checks : Bool) (h : a.toNat * b.toNat < 2 ^ 64) :
    mulU64 checks a b = .ok (a * b) ∧ (a * b).toNat = a.toNat * b.toNat := by
  refine ⟨by simpa [mulU64] using fun _ => h, ?_⟩
  rw [UInt64.toNat_mul]
  exact Nat.mod_eq_of_lt h

theorem clampU64_ok (h : lo.toNat ≤ hi.toNat) :
    ∃ y, clampU64 x lo hi = .ok y ∧ y.toNat = max lo.toNat (min x.toNat hi.toNat) := by
  have hno : ¬ hi < lo := by
    rw [UInt64.lt_iff_toNat_lt]
    omega
  refine ⟨_, by rw [clampU64, if_neg hno], ?_⟩
  simp only [UInt64.lt_iff_toNat_lt]
  split_ifs <;> omega

end

/-- The last page; a page without items is the only one. -/
def lastPage (total perPage : UInt64) : Nat :=
  if total = 0 then 1 else pageCount (itemsPerPage perPage) total.toNat

def clampedPage (total page perPage : UInt64) : Nat := max 1 (min page.toNat (lastPage total perPage))

/-- The fields, as numbers without a bound. -/
structure Computed (total page perPage : UInt64) (info : PageInfo) : Prop where
  perPage_eq : info.perPage.toNat = itemsPerPage perPage
  totalPages_eq : info.totalPages.toNat = lastPage total perPage
  page_eq : info.page.toNat = clampedPage total page perPage
  offset_eq : info.offset.toNat = (clampedPage total page perPage - 1) * itemsPerPage perPage
  fromItem_eq (h : total ≠ 0) :
    info.fromItem.toNat = (clampedPage total page perPage - 1) * itemsPerPage perPage + 1
  toItem_eq (h : total ≠ 0) : info.toItem.toNat =
    min ((clampedPage total page perPage - 1) * itemsPerPage perPage + itemsPerPage perPage) total.toNat
  hasNext_iff : info.hasNext = true ↔ clampedPage total page perPage < lastPage total perPage
  hasPrev_iff : info.hasPrev = true ↔ 1 < clampedPage total page perPage

variable {total perPage : UInt64}

theorem itemsPerPage_pos (perPage : UInt64) : 0 < itemsPerPage perPage :=
  lt_of_lt_of_le Nat.one_pos (le_max_left _ _)

theorem toNat_pos (h : total ≠ 0) : 0 < total.toNat := by
  have hne : total.toNat ≠ 0 := fun hzero => h (UInt64.toNat_inj.mp hzero)
  exact Nat.pos_of_ne_zero hne

theorem lastPage_pos (total perPage : UInt64) : 0 < lastPage total perPage := by
  unfold lastPage
  split_ifs with h
  · exact Nat.one_pos
  · exact pageCount_pos (itemsPerPage_pos perPage) (toNat_pos h)

theorem clampedPage_bounds (total page perPage : UInt64) :
    1 ≤ clampedPage total page perPage ∧ clampedPage total page perPage ≤ lastPage total perPage :=
  ⟨le_max_left _ _, max_le (lastPage_pos total perPage) (min_le_right _ _)⟩

/-- Where there are items, the offset is before the last one. -/
theorem offset_lt (h : total ≠ 0) (page : UInt64) :
    (clampedPage total page perPage - 1) * itemsPerPage perPage < total.toNat := by
  obtain ⟨hfirst, hlast⟩ := clampedPage_bounds total page perPage
  rw [lastPage, if_neg h] at hlast
  exact (le_pageCount_iff (itemsPerPage_pos perPage) hfirst).mp hlast

theorem offset_lt_size (total page perPage : UInt64) :
    (clampedPage total page perPage - 1) * itemsPerPage perPage < 2 ^ 64 := by
  by_cases h : total = 0
  · have hpage : clampedPage total page perPage = 1 := by simp [clampedPage, lastPage, h]
    simp [hpage]
  · exact (offset_lt h page).trans total.toNat_lt

theorem countPages_ok (h : Fits total perPage) {n : UInt64} (hn : n.toNat = itemsPerPage perPage) :
    ∃ q, (∀ checks, countPages checks total n = .ok q) ∧ q.toNat = lastPage total perPage := by
  by_cases hzero : total = 0
  · exact ⟨1, fun checks => by simp [countPages, hzero], by simp [lastPage, hzero]⟩
  · have hfits : total.toNat + n.toNat < 2 ^ 64 := by
      rw [hn]
      exact h.resolve_left hzero
    have hpos : 1 ≤ total.toNat + n.toNat := (toNat_pos hzero).trans_le (Nat.le_add_right _ _)
    have hsum := fun checks => addU64_ok checks hfits
    have htop := fun checks => subU64_ok (b := 1) checks ((hsum checks).2 ▸ hpos)
    refine ⟨(total + n - 1) / n, fun checks => ?_, ?_⟩
    · simp [countPages, hzero, (hsum checks).1, (htop checks).1, bind, Except.bind]
    · rw [UInt64.toNat_div, (htop true).2, (hsum true).2, hn, lastPage, if_neg hzero]
      rfl

theorem itemRange_ok (h : Fits total perPage) {n offset : UInt64}
    (hn : n.toNat = itemsPerPage perPage) (hoffset : total ≠ 0 → offset.toNat < total.toNat) :
    ∃ items : UInt64 × UInt64, (∀ checks, itemRange checks total n offset = .ok items) ∧
      (total ≠ 0 → items.1.toNat = offset.toNat + 1 ∧
        items.2.toNat = min (offset.toNat + itemsPerPage perPage) total.toNat) := by
  by_cases hzero : total = 0
  · exact ⟨(0, 0), fun checks => by simp [itemRange, hzero], fun hne => absurd hzero hne⟩
  · have hfits := h.resolve_left hzero
    have hlt := hoffset hzero
    have htotal := total.toNat_lt
    have hfirst := fun checks => addU64_ok (a := offset) (b := 1) checks (by
      have hone := UInt64.toNat_one
      omega)
    have hstop := fun checks => addU64_ok (a := offset) (b := n) checks (by omega)
    refine ⟨(offset + 1, min (offset + n) total), fun checks => ?_, fun _ => ⟨(hfirst true).2, ?_⟩⟩
    · simp [itemRange, hzero, (hfirst checks).1, (hstop checks).1, bind, Except.bind]
    · rw [← hn, ← (hstop true).2]
      exact UInt64.toNat_min _ _

theorem paginate_ok (h : Fits total perPage) (page : UInt64) :
    ∃ info, (∀ checks, paginate checks total page perPage = .ok info) ∧
      Computed total page perPage info := by
  obtain ⟨n, hn, hnNat⟩ := @clampU64_ok perPage 1 10000 (by decide)
  have hper : n.toNat = itemsPerPage perPage := hnNat
  obtain ⟨pages, hpages, hpagesNat⟩ := countPages_ok h hper
  obtain ⟨p, hp, hpNat⟩ := @clampU64_ok page 1 pages
    (hpagesNat ▸ lastPage_pos total perPage)
  have hclamped : p.toNat = clampedPage total page perPage := by
    rw [hpNat, hpagesNat]
    rfl
  obtain ⟨hfirst, hlast⟩ := clampedPage_bounds total page perPage
  have hbefore := fun checks => subU64_ok (a := p) (b := 1) checks (hclamped ▸ hfirst)
  have hproduct : (p - 1).toNat * n.toNat =
      (clampedPage total page perPage - 1) * itemsPerPage perPage := by
    rw [(hbefore true).2, hclamped, hper]
    rfl
  have hbound : (p - 1).toNat * n.toNat < 2 ^ 64 := hproduct ▸ offset_lt_size total page perPage
  have hoffset := fun checks => mulU64_ok checks hbound
  have hoffsetNat : ((p - 1) * n).toNat = _ := (hoffset true).2.trans hproduct
  obtain ⟨items, hitems, hitemsNat⟩ := @itemRange_ok _ _ h n ((p - 1) * n) hper fun hne => by
    rw [hoffsetNat]
    exact offset_lt hne page
  refine ⟨⟨total, p, n, pages, decide (p < pages), decide (1 < p), (p - 1) * n, items.1, items.2⟩,
    fun checks => ?_, ?_⟩
  · simp only [paginate, hn, hpages checks, hp, (hbefore checks).1, (hoffset checks).1,
      hitems checks, bind, Except.bind]
  · refine ⟨hper, hpagesNat, hclamped, hoffsetNat, fun hne => ?_, fun hne => ?_, ?_, ?_⟩
    · rw [← hoffsetNat]
      exact (hitemsNat hne).1
    · rw [← hoffsetNat]
      exact (hitemsNat hne).2
    · rw [← hclamped, ← hpagesNat]
      simp [UInt64.lt_iff_toNat_lt]
    · rw [← hclamped]
      simp [UInt64.lt_iff_toNat_lt]

/-- The first addition overflows. -/
theorem paginate_overflows (h : ¬ Fits total perPage) (page : UInt64) :
    paginate true total page perPage = .error .overflow := by
  obtain ⟨hzero, hlarge⟩ := not_or.mp h
  obtain ⟨n, hn, hnNat⟩ := @clampU64_ok perPage 1 10000 (by decide)
  have hsum : 2 ^ 64 ≤ total.toNat + n.toNat := by
    rw [hnNat]
    exact Nat.not_lt.mp hlarge
  have hpages : countPages true total n = .error .overflow := by
    simp [countPages, addU64_overflow hsum, hzero, bind, Except.bind]
  simp [paginate, hn, hpages, bind, Except.bind]

/-! ## Pages and items -/

/-- The pages that there are, and the items on them. -/
structure Partition (total : UInt64) (info : UInt64 → PageInfo) (pages : UInt64) : Prop where
  nonempty (page : UInt64) (h : 1 ≤ page ∧ page ≤ pages) :
    (info page).fromItem ≤ (info page).toItem
  consecutive (page : UInt64) (h : 1 ≤ page ∧ page < pages) :
    (info (page + 1)).fromItem.toNat = (info page).toItem.toNat + 1
  disjoint (page page' : UInt64) (h : 1 ≤ page ∧ page ≤ pages) (h' : 1 ≤ page' ∧ page' ≤ pages)
    (item : UInt64) (hitem : (info page).fromItem ≤ item ∧ item ≤ (info page).toItem)
    (hitem' : (info page').fromItem ≤ item ∧ item ≤ (info page').toItem) : page = page'
  covers (item : UInt64) : (1 ≤ item ∧ item ≤ total) ↔
    ∃ page, (1 ≤ page ∧ page ≤ pages) ∧ (info page).fromItem ≤ item ∧ item ≤ (info page).toItem

/-- What is promised for all pages of a listing. -/
def Paginates (total perPage : UInt64) : Prop :=
  ∃ (info : UInt64 → PageInfo) (pages : UInt64),
    (∀ page checks, paginate checks total page perPage = .ok (info page)) ∧
    (∀ page, (info page).totalPages = pages ∧ 1 ≤ (info page).page ∧ (info page).page ≤ pages ∧
      (info page).offset.toNat = ((info page).page.toNat - 1) * (info page).perPage.toNat) ∧
    (0 < total → Partition total info pages ∧ ∀ page,
      ((info page).hasNext = true ↔ (info page).toItem < total) ∧
      ((info page).hasPrev = true ↔ 1 < (info page).fromItem))

theorem not_paginates (h : ¬ Fits total perPage) : ¬ Paginates total perPage := by
  rintro ⟨info, pages, hinfo, -⟩
  have hpanic := paginate_overflows h 1
  rw [hinfo 1 true] at hpanic
  cases hpanic

namespace Computed

variable {page : UInt64} {info : UInt64 → PageInfo}

theorem clampedPage_of_le (h : 1 ≤ page.toNat ∧ page.toNat ≤ lastPage total perPage) :
    clampedPage total page perPage = page.toNat := by
  unfold clampedPage
  omega

/-- The item range of a page that exists. -/
theorem mem_iff (h : Computed total page perPage (info page)) (htotal : total ≠ 0)
    (hpage : 1 ≤ page.toNat ∧ page.toNat ≤ lastPage total perPage) (item : UInt64) :
    ((info page).fromItem ≤ item ∧ item ≤ (info page).toItem) ↔
      OnPage (itemsPerPage perPage) total.toNat page.toNat item.toNat := by
  have hclamped := clampedPage_of_le hpage
  have hfrom := h.fromItem_eq htotal
  have hto := h.toItem_eq htotal
  rw [hclamped] at hfrom hto
  rw [UInt64.le_iff_toNat_le, UInt64.le_iff_toNat_le, hfrom, hto]
  rfl

theorem partition (h : ∀ page, Computed total page perPage (info page)) (htotal : total ≠ 0)
    {pages : UInt64} (hpages : pages.toNat = lastPage total perPage) :
    Partition total info pages := by
  have hn := itemsPerPage_pos perPage
  have hlast : lastPage total perPage = pageCount (itemsPerPage perPage) total.toNat := if_neg htotal
  have hone := UInt64.toNat_one
  have hexists : ∀ page : UInt64, 1 ≤ page ∧ page ≤ pages →
      1 ≤ page.toNat ∧ page.toNat ≤ lastPage total perPage := by
    intro page hpage
    rw [UInt64.le_iff_toNat_le, UInt64.le_iff_toNat_le, hpages] at hpage
    exact hpage
  refine ⟨fun page hpage => ?_, fun page hpage => ?_, ?_, fun item => ?_⟩
  · have hbounds := hexists page hpage
    rw [UInt64.le_iff_toNat_le, (h page).fromItem_eq htotal, (h page).toItem_eq htotal,
      clampedPage_of_le hbounds]
    exact onPage_first hn hbounds.1 (hlast ▸ hbounds.2)
  · rw [UInt64.le_iff_toNat_le, UInt64.lt_iff_toNat_lt, hpages] at hpage
    have hsmall : page.toNat + (1 : UInt64).toNat < 2 ^ 64 := by
      have hbound := pages.toNat_lt
      omega
    -- the next page is no overflow, since there is a later one
    have hnext := (addU64_ok true hsmall).2
    have hfull := last_item_of_lt hn hpage.1 (hlast ▸ hpage.2)
    rw [(h (page + 1)).fromItem_eq htotal, (h page).toItem_eq htotal,
      @clampedPage_of_le _ _ page ⟨hpage.1, hpage.2.le⟩, hfull,
      @clampedPage_of_le _ _ (page + 1) (by omega), hnext, hone, Nat.add_sub_cancel]
  · intro page page' hpage hpage' item hitem hitem'
    rw [(h page).mem_iff htotal (hexists page hpage)] at hitem
    rw [(h page').mem_iff htotal (hexists page' hpage')] at hitem'
    have heq := eq_of_onPage (hexists page hpage).1 hitem
    have heq' := eq_of_onPage (hexists page' hpage').1 hitem'
    exact UInt64.toNat_inj.mp (heq.trans heq'.symm)
  · have hitems := @exists_onPage_iff (itemsPerPage perPage) total.toNat item.toNat hn
    rw [UInt64.le_iff_toNat_le, UInt64.le_iff_toNat_le, hone, ← hitems]
    constructor
    · rintro ⟨p, hpos, hle, hon⟩
      have hsmall : p < 2 ^ 64 := lt_of_le_of_lt hle (hlast ▸ hpages ▸ pages.toNat_lt)
      have hp : (UInt64.ofNat p).toNat = p := UInt64.toNat_ofNat_of_lt' hsmall
      have hbounds : 1 ≤ UInt64.ofNat p ∧ UInt64.ofNat p ≤ pages := by
        rw [UInt64.le_iff_toNat_le, UInt64.le_iff_toNat_le, hp, hpages, hlast]
        exact ⟨hpos, hle⟩
      refine ⟨UInt64.ofNat p, hbounds, ((h _).mem_iff htotal (hexists _ hbounds) item).mpr ?_⟩
      rw [hp]
      exact hon
    · rintro ⟨page, hbounds, hitem⟩
      have hpage := hexists page hbounds
      exact ⟨page.toNat, hpage.1, hlast ▸ hpage.2, ((h page).mem_iff htotal hpage item).mp hitem⟩

end Computed

theorem paginates_iff (total perPage : UInt64) : Paginates total perPage ↔ Fits total perPage := by
  constructor
  · exact fun hpaginates => not_not.mp fun hfits => not_paginates hfits hpaginates
  · intro hfits
    choose info hinfo hcomputed using paginate_ok hfits
    have hpages : ∀ page, (info page).totalPages = (info 1).totalPages := fun page =>
      UInt64.toNat_inj.mp ((hcomputed page).totalPages_eq.trans (hcomputed 1).totalPages_eq.symm)
    refine ⟨info, (info 1).totalPages, hinfo, fun page => ⟨hpages page, ?_, ?_, ?_⟩, fun htotal => ?_⟩
    · rw [UInt64.le_iff_toNat_le, (hcomputed page).page_eq]
      exact (clampedPage_bounds total page perPage).1
    · rw [UInt64.le_iff_toNat_le, (hcomputed page).page_eq, (hcomputed 1).totalPages_eq]
      exact (clampedPage_bounds total page perPage).2
    · rw [(hcomputed page).offset_eq, (hcomputed page).page_eq, (hcomputed page).perPage_eq]
    · have hne : total ≠ 0 := fun hzero => by simp [hzero] at htotal
      have hn := itemsPerPage_pos perPage
      refine ⟨Computed.partition hcomputed hne (hcomputed 1).totalPages_eq, fun page => ⟨?_, ?_⟩⟩
      · have hlast : lastPage total perPage = pageCount (itemsPerPage perPage) total.toNat := if_neg hne
        rw [(hcomputed page).hasNext_iff, UInt64.lt_iff_toNat_lt, (hcomputed page).toItem_eq hne, hlast]
        exact lt_pageCount_iff hn (clampedPage_bounds total page perPage).1
      · rw [(hcomputed page).hasPrev_iff, UInt64.lt_iff_toNat_lt, (hcomputed page).fromItem_eq hne]
        rw [UInt64.toNat_one, Nat.lt_add_one_iff, Nat.one_le_iff_ne_zero, Nat.mul_ne_zero_iff]
        omega

/-- The greatest `u64` as total. -/
theorem greatest_total_overflows : ¬ Paginates (UInt64.ofNat (2 ^ 64 - 1)) 20 := by
  apply not_paginates
  decide

end Hypern.Utils
