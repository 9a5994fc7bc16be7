/-
# What the builder of the page tables writes

A builder of one level is given a table, new or not, and maps the part of a range that the table is
for: `Builds` says so for a level, and `setupTable_builds` takes it to the next one.  The pages that
`BlockAlloc` gives have to be new, whole pages; `Allocates` is what it promises, by an invariant of
its heap that knows the pages of the tables.
-/

import Codrive.Emu.ProcessVM
import Mathlib.Tactic.Ring

namespace Codrive.Emu

open Codrive.Basis Codrive.Basis.PageTree

variable {H : Type}

/-- A page of device memory. -/
def PageOk (p : ℕ) : Prop := p ≠ 0 ∧ pageSize ∣ p

/-- **What `BlockAlloc` promises**: while the invariant holds of the heap and the pages of the
tables, a page that it gives is none of them. -/
def Allocates (alloc : H → ℕ × H) (I : H → (ℕ → Prop) → Prop) : Prop :=
  ∀ h T, I h T → PageOk (alloc h).1 →
    ¬T ((alloc h).1 / pageSize) ∧ I (alloc h).2 fun g => g = (alloc h).1 / pageSize ∨ T g

/-- How many virtual pages a table of level `n` is for. -/
def span (n : ℕ) : ℕ := fan n * weight fan n

/-- What a table holds when its builder starts. -/
def scratch (d : Device H) (page : ℕ) (new : Bool) : ℕ → PDE :=
  if new then fun _ => {} else d.mem page

section

variable (I : H → (ℕ → Prop) → Prop) (n : ℕ)

/-- The virtual pages from `a` to `b` are mapped to the pages from `q` on, in the table of level `n`
in page `page`, as far as it is for them; `T` and `T'` are the pages of all tables. -/
structure Built (a b q k page : ℕ) (new : Bool) (T T' : ℕ → Prop) (d d' : Device H) : Prop where
  mono : ∀ g, T g → T' g
  inv : I d'.heap T'
  tree : Tree PDE.link fan n d'.mem (d'.mem page)
  not_owns : ¬Owns PDE.link fan n d'.mem (d'.mem page) page
  touched : ∀ g, Owns PDE.link fan n d'.mem (d'.mem page) g ∨ d'.mem g ≠ d.mem g →
    g = page ∨ Owns PDE.link fan n d.mem (scratch d page new) g ∨ (T' g ∧ ¬T g)
  owns : ∀ g, Owns PDE.link fan n d'.mem (d'.mem page) g →
    Owns PDE.link fan n d.mem (scratch d page new) g ∨ (T' g ∧ ¬T g)
  mapped : ∀ v, v / span n = k → walk PDE.link fan n d'.mem (d'.mem page) v =
    if a ≤ v ∧ v < b then some (q + (v - a))
    else walk PDE.link fan n d.mem (scratch d page new) v

/-- **What a builder of level `n` does**, for table `k`: if all pages from `BlockAlloc` are whole
pages, the range is mapped, and every other virtual page is as before. -/
def Builds (child : Builder H) : Prop :=
  ∀ (a b q k page : ℕ) (new : Bool) (d : Device H) (T : ℕ → Prop),
    a < (k + 1) * span n → k * span n < b → a < b → I d.heap T → T page →
    Tree PDE.link fan n d.mem (scratch d page new) →
    (∀ g, Owns PDE.link fan n d.mem (scratch d page new) g → T g ∧ g ≠ page) →
    ∀ d', child (pageSize * (k * span n)) (pageSize * ((k + 1) * span n) - 1) (pageSize * a)
        (pageSize * b - 1) (pageSize * q) page new d = d' →
      (∀ p ∈ d'.pages, PageOk p) → ∃ T', Built I n a b q k page new T T' d d'

end

/-- `BlockAlloc` keeps what is known of the heap and of the pages that it gave. -/
def Gives (alloc : H → ℕ × H) (P : H → List ℕ → Prop) : Prop :=
  ∀ h pages, P h pages → P (alloc h).2 ((alloc h).1 :: pages)

/-- A builder keeps what is known of the heap and of its pages. -/
def Keeps (P : H → List ℕ → Prop) (child : Builder H) : Prop :=
  ∀ va_base va_top va_start va_end pa_start page new d, P d.heap d.pages →
    P (child va_base va_top va_start va_end pa_start page new d).heap
      (child va_base va_top va_start va_end pa_start page new d).pages

/-- A page from `BlockAlloc` stays on record. -/
theorem gives_mem (alloc : H → ℕ × H) (p : ℕ) : Gives alloc fun _ pages => p ∈ pages :=
  fun _ _ => List.mem_cons_of_mem _

theorem fan_pos (n : ℕ) : 0 < fan n := by
  rw [fan]
  split <;> decide

theorem weight_pos (n : ℕ) : 0 < weight fan n := by
  induction n with
  | zero => exact Nat.one_pos
  | succ n ih => exact Nat.mul_pos (fan_pos n) ih

theorem span_pos (n : ℕ) : 0 < span n := Nat.mul_pos (fan_pos n) (weight_pos n)

/-- The entry of a virtual page in table `k`. -/
theorem digit_eq_iff {n k v i : ℕ} (hv : v / span n = k) (hi : i / fan n = k) :
    digit fan n v = i % fan n ↔ v / weight fan n = i := by
  have hdiv : v / weight fan n / fan n = k := by
    rw [Nat.div_div_eq_div_mul, Nat.mul_comm]
    exact hv
  have h₁ := Nat.div_add_mod (v / weight fan n) (fan n)
  have h₂ := Nat.div_add_mod i (fan n)
  rw [hdiv] at h₁
  rw [hi] at h₂
  rw [digit]
  omega

@[simp] theorem link_empty : PDE.link {} = none := rfl

section Loop

variable {I : H → (ℕ → Prop) → Prop} {n : ℕ} {alloc : H → ℕ × H} {vm : ProcessVM}
  {child : Builder H} {T : ℕ → Prop} {mem₀ : ℕ → ℕ → PDE} {page₀ : ℕ → PDE} {a b q k : ℕ}

/-- **The invariant of the loop over the entries of a table** of level `n + 1`: before entry `j`,
the part of the range below the entries before it is mapped. -/
structure Filling (I : H → (ℕ → Prop) → Prop) (n : ℕ) (T : ℕ → Prop) (mem₀ : ℕ → ℕ → PDE)
    (page₀ : ℕ → PDE) (a b q k j : ℕ) (s : (ℕ → PDE) × Device H) (T' : ℕ → Prop) : Prop where
  mono : ∀ g, T g → T' g
  inv : I s.2.heap T'
  tree : Tree PDE.link fan (n + 1) s.2.mem s.1
  owns : ∀ g, Owns PDE.link fan (n + 1) s.2.mem s.1 g →
    Owns PDE.link fan (n + 1) mem₀ page₀ g ∨ (T' g ∧ ¬T g)
  written : ∀ g, s.2.mem g ≠ mem₀ g → Owns PDE.link fan (n + 1) mem₀ page₀ g ∨ (T' g ∧ ¬T g)
  mapped : ∀ v, v / span (n + 1) = k → walk PDE.link fan (n + 1) s.2.mem s.1 v =
    if (a ≤ v ∧ v < b) ∧ v / weight fan (n + 1) < j then some (q + (v - a))
    else walk PDE.link fan (n + 1) mem₀ page₀ v

/-- The table below an entry, after its builder. -/
theorem Filling.step_of_built {s : (ℕ → PDE) × Device H} {T' U U' : ℕ → Prop} {i f : ℕ}
    {new : Bool} {d d' : Device H} {e : PDE} (h : Filling I n T mem₀ page₀ a b q k i s T')
    (hT : ∀ g, Owns PDE.link fan (n + 1) mem₀ page₀ g → T g) (hi : i / fan (n + 1) = k)
    (hmem : d.mem = s.2.mem) (hU : ∀ g, T' g → U g) (hnew : ∀ g, U g → ¬T' g → g = f)
    (hbuilt : Built I n a b q i f new U U' d d')
    (hf : PDE.link (s.1 (i % fan (n + 1))) = some f ∧ new = false ∨
      PDE.link (s.1 (i % fan (n + 1))) = none ∧ new = true ∧ U f ∧ ¬T' f)
    (he : PDE.link e = some f) :
    Filling I n T mem₀ page₀ a b q k (i + 1) (Function.update s.1 (i % fan (n + 1)) e, d') U' := by
  have hlt : i % fan (n + 1) < fan (n + 1) := Nat.mod_lt _ (fan_pos _)
  -- every page of the tables so far is known
  have hknown : ∀ g, Owns PDE.link fan (n + 1) s.2.mem s.1 g → T' g := fun g hg =>
    (h.owns g hg).elim (fun h₀ => h.mono g (hT g h₀)) And.left
  have hempty : new = true → ∀ g, ¬Owns PDE.link fan n d.mem (scratch d f new) g := by
    rintro rfl
    exact (empty_table fun _ => rfl).2.1
  have htouched : ∀ g, Sub PDE.link fan n d'.mem f g ∨ d'.mem g ≠ s.2.mem g →
      (PDE.link (s.1 (i % fan (n + 1))) = some f ∧ Sub PDE.link fan n s.2.mem f g) ∨
        (U' g ∧ ¬T' g) := by
    intro g hg
    have hsub : g = f ∨ Owns PDE.link fan n d.mem (scratch d f new) g ∨ (U' g ∧ ¬U g) := by
      rcases hg with (heq | howns) | hne
      · exact .inl heq
      · exact hbuilt.touched g (.inl howns)
      · exact hbuilt.touched g (.inr (hmem ▸ hne))
    rcases hf with ⟨hlink, rfl⟩ | ⟨-, rfl, hUf, hTf⟩
    · rcases hsub with heq | hold | ⟨hU', hnU⟩
      · exact .inl ⟨hlink, .inl heq⟩
      · refine .inl ⟨hlink, .inr ?_⟩
        rw [← hmem]
        exact hold
      · exact .inr ⟨hU', fun hT' => hnU (hU g hT')⟩
    · rcases hsub with rfl | hold | ⟨hU', hnU⟩
      · exact .inr ⟨hbuilt.mono g hUf, hTf⟩
      · exact absurd hold (hempty rfl g)
      · exact .inr ⟨hU', fun hT' => hnU (hU g hT')⟩
  have hreplaced : Replaced PDE.link fan n s.2.mem d'.mem s.1 (i % fan (n + 1)) f :=
    ⟨hbuilt.tree, hbuilt.not_owns, fun g hg => (htouched g hg).imp_right fun hnot howns =>
      hnot.2 (hknown g howns)⟩
  have hafter : ∀ g, Owns PDE.link fan (n + 1) s.2.mem s.1 g ∨ (U' g ∧ ¬T' g) →
      Owns PDE.link fan (n + 1) mem₀ page₀ g ∨ (U' g ∧ ¬T g) := by
    rintro g (howns | ⟨hU', hnT'⟩)
    · exact (h.owns g howns).imp_right fun hnot => ⟨hbuilt.mono g (hU g hnot.1), hnot.2⟩
    · exact .inr ⟨hU', fun hTg => hnT' (h.mono g hTg)⟩
  have hown : ∀ g, Sub PDE.link fan n d'.mem f g ∨ d'.mem g ≠ s.2.mem g →
      Owns PDE.link fan (n + 1) s.2.mem s.1 g ∨ (U' g ∧ ¬T' g) := fun g hg =>
    (htouched g hg).imp_left fun hold => ⟨_, hlt, f, hold.1, hold.2⟩
  refine ⟨fun g hg => hbuilt.mono g (hU g (h.mono g hg)), hbuilt.inv,
    tree_set hreplaced fan_pos h.tree hlt he, fun g hg => ?_, fun g hg => ?_, fun v hv => ?_⟩
  · rcases owns_set hreplaced fan_pos h.tree hlt he hg with hold | hsub
    · exact hafter g (.inl hold)
    · exact hafter g (hown g (.inl hsub))
  · by_cases hsame : d'.mem g = s.2.mem g
    · obtain hold | ⟨hT', hnT⟩ := h.written g (hsame ▸ hg)
      · exact .inl hold
      · exact .inr ⟨hbuilt.mono g (hU g hT'), hnT⟩
    · exact hafter g (hown g (.inr hsame))
  · rw [walk_set hreplaced fan_pos h.tree hlt he]
    have hdigit := digit_eq_iff hv hi
    by_cases hvi : v / weight fan (n + 1) = i
    · rw [if_pos (hdigit.2 hvi), hbuilt.mapped v hvi]
      have hold : walk PDE.link fan n d.mem (scratch d f new) v =
          walk PDE.link fan (n + 1) mem₀ page₀ v := by
        have hbefore := h.mapped v hv
        rw [if_neg (by omega)] at hbefore
        rw [← hbefore, walk, hdigit.2 hvi]
        rcases hf with ⟨hlink, rfl⟩ | ⟨hlink, rfl, -⟩
        · rw [hlink, Option.bind_some, ← hmem]
          rfl
        · rw [hlink, Option.bind_none]
          exact (empty_table fun _ => rfl).2.2 v
      rw [hold]
      by_cases hab : a ≤ v ∧ v < b
      · rw [if_pos hab, if_pos ⟨hab, by omega⟩]
      · rw [if_neg hab, if_neg fun hand => hab hand.1]
    · rw [if_neg (fun hcon => hvi (hdigit.1 hcon)), h.mapped v hv]
      by_cases hab : (a ≤ v ∧ v < b) ∧ v / weight fan (n + 1) < i
      · rw [if_pos hab, if_pos ⟨hab.1, by omega⟩]
      · rw [if_neg hab, if_neg fun hand => hab ⟨hand.1, by omega⟩]

theorem setupEntry_keeps {P : H → List ℕ → Prop} (halloc : Gives alloc P) (hchild : Keeps P child)
    {level va_base va_top va_start va_end pa_start i : ℕ} {s : (ℕ → PDE) × Device H}
    (hs : P s.2.heap s.2.pages) :
    P (setupEntry alloc vm level child va_base va_top va_start va_end pa_start i s).2.heap
      (setupEntry alloc vm level child va_base va_top va_start va_end pa_start i s).2.pages := by
  rw [setupEntry]
  dsimp only
  split
  · exact hchild _ _ _ _ _ _ _ _ (halloc _ _ hs)
  · exact hchild _ _ _ _ _ _ _ _ hs

/-- **One turn of the loop** maps the part of the range below its entry. -/
theorem Filling.setupEntry (halloc : Allocates alloc I) (hchild : Builds I n child)
    (hkeeps : ∀ p, Keeps (fun _ pages => p ∈ pages) child) (hvalid : vm.valid_ = true)
    (hT : ∀ g, Owns PDE.link fan (n + 1) mem₀ page₀ g → T g) {i level : ℕ}
    (hi : i / fan (n + 1) = k) (hlo : a < (i + 1) * span n) (hhi : i * span n < b) (hab : a < b)
    {s : (ℕ → PDE) × Device H} {T' : ℕ → Prop} (h : Filling I n T mem₀ page₀ a b q k i s T')
    {s' : (ℕ → PDE) × Device H}
    (hs' : setupEntry alloc vm level child (pageSize * (i * span n))
      (pageSize * ((i + 1) * span n) - 1) (pageSize * a) (pageSize * b - 1) (pageSize * q)
      (i % fan (n + 1)) s = s') (hok : ∀ p ∈ s'.2.pages, PageOk p) :
    ∃ U', Filling I n T mem₀ page₀ a b q k (i + 1) s' U' := by
  obtain ⟨page, d⟩ := s
  have hlt : i % fan (n + 1) < fan (n + 1) := Nat.mod_lt _ (fan_pos _)
  have hknown : ∀ g, Owns PDE.link fan (n + 1) d.mem page g → T' g := fun g hg =>
    (h.owns g hg).elim (fun h₀ => h.mono g (hT g h₀)) And.left
  rw [Emu.setupEntry] at hs'
  dsimp only at hs'
  by_cases hv : (page (i % fan (n + 1))).valid = false
  · rcases hal : alloc d.heap with ⟨p, heap⟩
    rw [if_pos (by exact hv), hal] at hs'
    dsimp only at hs'
    subst hs'
    have hp : PageOk p := hok p (hkeeps p _ _ _ _ _ _ _ _ List.mem_cons_self)
    obtain ⟨hfresh, hinv⟩ := halloc d.heap T' h.inv (by rw [hal]; exact hp)
    rw [hal] at hfresh hinv
    obtain ⟨U', hbuilt⟩ := hchild a b q i (p / pageSize) true
      { d with heap, pages := p :: d.pages } (fun g => g = p / pageSize ∨ T' g) hlo hhi hab hinv
      (.inl rfl) (empty_table fun _ => rfl).1
      (fun g hg => absurd hg ((empty_table fun _ => rfl).2.1 g)) _ rfl hok
    have hmem : { d with heap, pages := p :: d.pages : Device H }.mem = d.mem := rfl
    refine ⟨U', h.step_of_built hT hi hmem (fun g hg => Or.inr hg)
      (fun g (hg : g = p / pageSize ∨ T' g) hnot => hg.resolve_right hnot) hbuilt
      (.inr ⟨?_, rfl, .inl rfl, hfresh⟩) ?_⟩
    · exact if_neg (by rw [hv]; decide)
    · exact if_pos hvalid
  · have hlink : PDE.link (page (i % fan (n + 1))) = some (page (i % fan (n + 1))).address :=
      if_pos (by simpa using hv)
    have hbelow : ∀ g, Owns PDE.link fan n d.mem (d.mem (page (i % fan (n + 1))).address) g →
        Owns PDE.link fan (n + 1) d.mem page g := fun g hg => ⟨_, hlt, _, hlink, .inr hg⟩
    obtain ⟨htree, hself⟩ := h.tree.1 _ hlt _ hlink
    rw [if_neg (by exact hv)] at hs'
    dsimp only at hs'
    subst hs'
    obtain ⟨U', hbuilt⟩ := hchild a b q i (page (i % fan (n + 1))).address false d T' hlo hhi hab
      h.inv (hknown _ ⟨_, hlt, _, hlink, .inl rfl⟩) htree
      (fun g hg => ⟨hknown g (hbelow g hg), fun heq => hself (heq ▸ hg)⟩) _ rfl hok
    refine ⟨U', h.step_of_built hT hi rfl (fun g hg => hg) (fun g hg hnot => absurd hg hnot) hbuilt
      (.inl ⟨hlink, rfl⟩) ?_⟩
    exact if_pos hvalid

/-- Before the first entry of the range, nothing is mapped yet. -/
theorem Filling.init {d : Device H} (hinv : I d.heap T)
    (htree : Tree PDE.link fan (n + 1) d.mem page₀) :
    Filling I n T d.mem page₀ a b q k (a / span n) (page₀, d) T := by
  refine ⟨fun g hg => hg, hinv, htree, fun g hg => .inl hg, fun g hg => absurd rfl hg,
    fun v _ => ?_⟩
  by_cases hv : (a ≤ v ∧ v < b) ∧ v / weight fan (n + 1) < a / span n
  · have hle : a / span n ≤ v / span n := Nat.div_le_div_right hv.1.1
    exact absurd hv.2 (Nat.not_lt.2 hle)
  · rw [if_neg hv]

/-- After the last entry of the range, all of it is mapped. -/
theorem Filling.mapped_end {s : (ℕ → PDE) × Device H} {T' : ℕ → Prop} {v : ℕ}
    (h : Filling I n T mem₀ page₀ a b q k ((b - 1) / span n + 1) s T') (hv : v / span (n + 1) = k) :
    walk PDE.link fan (n + 1) s.2.mem s.1 v =
      if a ≤ v ∧ v < b then some (q + (v - a)) else walk PDE.link fan (n + 1) mem₀ page₀ v := by
  rw [h.mapped v hv]
  by_cases hab : a ≤ v ∧ v < b
  · have hle : v / span n ≤ (b - 1) / span n := Nat.div_le_div_right (by omega)
    rw [if_pos hab, if_pos ⟨hab, Nat.lt_succ_of_le hle⟩]
  · rw [if_neg hab, if_neg fun hand => hab hand.1]

/-- An entry of the range is one of table `k`. -/
theorem entry_of_range {i : ℕ} (hlo : a / span n ≤ i) (hhi : i ≤ (b - 1) / span n) (hab : a < b)
    (ha : k * span (n + 1) ≤ a) (hb : b ≤ (k + 1) * span (n + 1)) :
    i / fan (n + 1) = k ∧ a < (i + 1) * span n ∧ i * span n < b := by
  have hspan := span_pos n
  have hsucc : span (n + 1) = fan (n + 1) * span n := rfl
  have h₁ : a < (i + 1) * span n := by
    rw [← Nat.div_lt_iff_lt_mul hspan]
    omega
  have h₂ : i * span n < b := by
    have := (Nat.le_div_iff_mul_le hspan).1 hhi
    omega
  refine ⟨?_, h₁, h₂⟩
  rw [Nat.div_eq_iff (fan_pos _)]
  rw [hsucc, ← Nat.mul_assoc] at ha hb
  have h₃ : k * fan (n + 1) < i + 1 := Nat.lt_of_mul_lt_mul_right (Nat.lt_of_le_of_lt ha h₁)
  have h₄ : i < (k + 1) * fan (n + 1) := Nat.lt_of_mul_lt_mul_right (Nat.lt_of_lt_of_le h₂ hb)
  rw [Nat.add_mul] at h₄
  omega

/-- Where the part of table `k` starts that an entry is for. -/
theorem entry_base {i : ℕ} (hi : i / fan (n + 1) = k) :
    pageSize * (k * span (n + 1)) + i % fan (n + 1) * (pageSize * span n) =
      pageSize * (i * span n) := by
  have hsum := Nat.div_add_mod i (fan (n + 1))
  rw [hi] at hsum
  conv_rhs => rw [← hsum]
  rw [show span (n + 1) = fan (n + 1) * span n from rfl]
  ring

/-- **The whole loop** maps the range, which is one of table `k`. -/
theorem Filling.loop (halloc : Allocates alloc I) (hchild : Builds I n child)
    (hkeeps : ∀ p, Keeps (fun _ pages => p ∈ pages) child) (hvalid : vm.valid_ = true) {level : ℕ}
    {body : ℕ → (ℕ → PDE) × Device H → (ℕ → PDE) × Device H}
    (hbody : ∀ i s, i / fan (n + 1) = k → body i s = Emu.setupEntry alloc vm level child
      (pageSize * (i * span n)) (pageSize * ((i + 1) * span n) - 1) (pageSize * a)
      (pageSize * b - 1) (pageSize * q) (i % fan (n + 1)) s)
    (hab : a < b) (ha : k * span (n + 1) ≤ a) (hb : b ≤ (k + 1) * span (n + 1)) {d : Device H}
    (hinv : I d.heap T) (htree : Tree PDE.link fan (n + 1) d.mem page₀)
    (hT : ∀ g, Owns PDE.link fan (n + 1) d.mem page₀ g → T g) {s' : (ℕ → PDE) × Device H}
    (hs' : forTo body (a / span n) ((b - 1) / span n) (page₀, d) = s')
    (hok : ∀ p ∈ s'.2.pages, PageOk p) :
    ∃ T', Filling I n T d.mem page₀ a b q k ((b - 1) / span n + 1) s' T' := by
  subst hs'
  -- the invariant is kept as long as the pages so far are whole pages
  refine forTo_rule (fun j s => (∀ p ∈ s.2.pages, PageOk p) →
    ∃ T', Filling I n T d.mem page₀ a b q k j s T')
    (Nat.le_succ_of_le (Nat.div_le_div_right (by omega))) (fun _ => ⟨T, .init hinv htree⟩)
    (fun i s hi₁ hi₂ hI hok' => ?_) hok
  obtain ⟨htable, hfrom, hto⟩ := entry_of_range hi₁ hi₂ hab ha hb
  rw [hbody i s htable] at hok' ⊢
  obtain ⟨T', hfill⟩ := hI fun p hp => hok' p (setupEntry_keeps (gives_mem alloc p) (hkeeps p) hp)
  exact hfill.setupEntry halloc hchild hkeeps hvalid hT htable hfrom hto hab rfl hok'

end Loop

/-! ### A table -/

/-- A range that is clipped to the virtual pages of a table: where it starts, its physical page, and
where it ends. -/
theorem clip_eq (a q : ℕ) {b : ℕ} (lo : ℕ) {hi : ℕ} (hb : 0 < b) (hhi : 0 < hi) :
    (if pageSize * a < pageSize * lo then pageSize * q + (pageSize * lo - pageSize * a)
        else pageSize * q) = pageSize * (q + (max a lo - a)) ∧
      (if pageSize * a < pageSize * lo then pageSize * lo else pageSize * a) =
        pageSize * max a lo ∧
      (if pageSize * hi - 1 < pageSize * b - 1 then pageSize * hi - 1 else pageSize * b - 1) =
        pageSize * min b hi - 1 := by
  have hpage : pageSize = 4096 := rfl
  rw [hpage]
  refine ⟨?_, ?_, ?_⟩
  · split <;> omega
  · split <;> omega
  · split <;> omega

/-- The entries for the first and the last address of a range. -/
theorem entry_eq {a b w : ℕ} (hb : 0 < b) :
    pageSize * a / (pageSize * w) = a / w ∧ (pageSize * b - 1) / (pageSize * w) = (b - 1) / w := by
  have hpage : pageSize = 4096 := rfl
  refine ⟨Nat.mul_div_mul_left _ _ (by omega), ?_⟩
  have hdiv : (pageSize * b - 1) / pageSize = b - 1 := by
    rw [hpage]
    omega
  rw [← Nat.div_div_eq_div_mul, hdiv]

variable {I : H → (ℕ → Prop) → Prop} {n : ℕ} {alloc : H → ℕ × H} {vm : ProcessVM}
  {child : Builder H}

theorem forTo_keeps {P : H → List ℕ → Prop}
    {body : ℕ → (ℕ → PDE) × Device H → (ℕ → PDE) × Device H} {lo hi : ℕ} {s : (ℕ → PDE) × Device H}
    (hbody : ∀ i s, P s.2.heap s.2.pages → P (body i s).2.heap (body i s).2.pages)
    (hs : P s.2.heap s.2.pages) :
    P (forTo body lo hi s).2.heap (forTo body lo hi s).2.pages := by
  by_cases hle : lo ≤ hi + 1
  · exact forTo_rule (fun _ s => P s.2.heap s.2.pages) hle hs fun i s _ _ hs => hbody i s hs
  · rw [forTo, show hi + 1 - lo = 0 by omega]
    exact hs

theorem setupTable_keeps {P : H → List ℕ → Prop} (halloc : Gives alloc P) (hchild : Keeps P child)
    (shift level : ℕ) : Keeps P (setupTable alloc vm shift level child) := by
  intro va_base va_top va_start va_end pa_start page new d hd
  exact forTo_keeps (fun i s hs => setupEntry_keeps halloc hchild hs) hd

/-- **From the builder of one level to that of the next.** -/
theorem setupTable_builds (halloc : Allocates alloc I) (hchild : Builds I n child)
    (hkeeps : ∀ p, Keeps (fun _ pages => p ∈ pages) child) (hvalid : vm.valid_ = true) {shift : ℕ}
    (level : ℕ)
    (hshift : 2 ^ shift = pageSize * span n) (hfan : fan (n + 1) = pageEntryNum) :
    Builds I (n + 1) (setupTable alloc vm shift level child) := by
  intro a b q k page new d T hlo hhi hab hinv hpage htree howns d' hd' hok
  have hspan := span_pos (n + 1)
  have hsucc : (k + 1) * span (n + 1) = k * span (n + 1) + span (n + 1) := Nat.succ_mul ..
  obtain ⟨hpa, hstart, hend⟩ := clip_eq a q (k * span (n + 1)) (by omega : 0 < b)
    (by omega : 0 < (k + 1) * span (n + 1))
  obtain ⟨a', ha'⟩ : ∃ a', a' = max a (k * span (n + 1)) := ⟨_, rfl⟩
  obtain ⟨b', hb'⟩ : ∃ b', b' = min b ((k + 1) * span (n + 1)) := ⟨_, rfl⟩
  have hab' : a' < b' := by omega
  obtain ⟨hfirst, hlast⟩ := entry_eq (a := a') (w := span n) (by omega : 0 < b')
  rw [setupTable] at hd'
  dsimp only at hd'
  rw [hpa, hstart, hend, ← ha', ← hb', hshift, hfirst, hlast] at hd'
  obtain ⟨q', hq'⟩ : ∃ q', q' = q + (a' - a) := ⟨_, rfl⟩
  rw [← hq'] at hd'
  have hbody : ∀ i s, i / fan (n + 1) = k → setupEntry alloc vm level child
      (pageSize * (k * span (n + 1)) + i % pageEntryNum * (pageSize * span n))
      (pageSize * (k * span (n + 1)) + (i % pageEntryNum + 1) * (pageSize * span n) - 1)
      (pageSize * a') (pageSize * b' - 1) (pageSize * q') (i % pageEntryNum) s =
      setupEntry alloc vm level child (pageSize * (i * span n)) (pageSize * ((i + 1) * span n) - 1)
        (pageSize * a') (pageSize * b' - 1) (pageSize * q') (i % fan (n + 1)) s := by
    intro i s hi
    rw [← hfan, entry_base hi, Nat.add_mul, Nat.one_mul, ← Nat.add_assoc, entry_base hi,
      ← Nat.mul_add, ← Nat.succ_mul]
  obtain ⟨s', hs'⟩ : ∃ s', forTo (fun i => setupEntry alloc vm level child
      (pageSize * (k * span (n + 1)) + i % pageEntryNum * (pageSize * span n))
      (pageSize * (k * span (n + 1)) + (i % pageEntryNum + 1) * (pageSize * span n) - 1)
      (pageSize * a') (pageSize * b' - 1) (pageSize * q') (i % pageEntryNum))
      (a' / span n) ((b' - 1) / span n) (scratch d page new, d) = s' := ⟨_, rfl⟩
  rw [← scratch, hs'] at hd'
  subst hd'
  obtain ⟨T', hfill⟩ := Filling.loop halloc hchild hkeeps hvalid hbody hab' (by omega) (by omega)
    hinv htree (fun g hg => (howns g hg).1) hs' hok
  have hnot : ¬Owns PDE.link fan (n + 1) s'.2.mem s'.1 page := fun hcon =>
    (hfill.owns page hcon).elim (fun hold => (howns page hold).2 rfl) fun hnew => hnew.2 hpage
  obtain ⟨howns', htree', hwalk'⟩ := congr_of_update fan_pos hnot s'.1
  have hself : Function.update s'.2.mem page s'.1 page = s'.1 := Function.update_self ..
  refine ⟨T', ⟨hfill.mono, hfill.inv, ?_, ?_, fun g hg => ?_, fun g hg => ?_, fun v hv => ?_⟩⟩
  · dsimp only
    rw [hself]
    exact htree'.2 hfill.tree
  · dsimp only
    rw [hself, howns']
    exact hnot
  · dsimp only at hg
    by_cases hgp : g = page
    · exact .inl hgp
    · rw [hself, howns', Function.update_of_ne hgp] at hg
      exact .inr (hg.elim (hfill.owns g) (hfill.written g))
  · dsimp only at hg
    rw [hself, howns'] at hg
    exact hfill.owns g hg
  · dsimp only
    rw [hself, hwalk', hfill.mapped_end hv]
    have hv₁ : k * span (n + 1) ≤ v := hv ▸ Nat.div_mul_le_self v (span (n + 1))
    have hv₂ : v < (k + 1) * span (n + 1) := by
      rw [← Nat.div_lt_iff_lt_mul hspan]
      omega
    by_cases hv' : a ≤ v ∧ v < b
    · rw [if_pos hv', if_pos (by omega), hq']
      congr 1
      omega
    · rw [if_neg hv', if_neg (by omega)]

/-! ### The four levels -/

/-- An entry of the last level. -/
theorem digit_zero_eq_iff {v i k : ℕ} (hv : v / span 0 = k) (hi : i / pageEntryNum = k) :
    digit fan 0 v = i % pageEntryNum ↔ v = i := by
  have h := digit_eq_iff (n := 0) hv hi
  rwa [show weight fan 0 = 1 from rfl, Nat.div_one] at h

theorem SetupPtePage_keeps {P : H → List ℕ → Prop} (halloc : Gives alloc P) :
    Keeps P (SetupPtePage alloc vm) := by
  intro va_base va_top va_start va_end pa_start page new d hd
  refine forTo_keeps (fun i s hs => ?_) hd
  dsimp only
  split
  · exact halloc _ _ hs
  · exact hs

/-- **The last level** maps its part of the range to physical pages. -/
theorem SetupPtePage_builds (hvalid : vm.valid_ = true) (hpa : vm.malloc_pa_ = false) :
    Builds I 0 (SetupPtePage alloc vm) := by
  intro a b q k page new d T hlo hhi hab hinv hpage htree howns d' hd' hok
  have hspan := span_pos 0
  have hsucc : (k + 1) * span 0 = k * span 0 + span 0 := Nat.succ_mul ..
  obtain ⟨hphys, hstart, hend⟩ := clip_eq a q (k * span 0) (by omega : 0 < b)
    (by omega : 0 < (k + 1) * span 0)
  obtain ⟨a', ha'⟩ : ∃ a', a' = max a (k * span 0) := ⟨_, rfl⟩
  obtain ⟨b', hb'⟩ : ∃ b', b' = min b ((k + 1) * span 0) := ⟨_, rfl⟩
  obtain ⟨q', hq'⟩ : ∃ q', q' = q + (a' - a) := ⟨_, rfl⟩
  have hshift : 2 ^ pteBitShift = pageSize * 1 := rfl
  have hab' : a' < b' := by omega
  obtain ⟨hfirst, hlast⟩ := entry_eq (a := a') (w := 1) (by omega : 0 < b')
  have hframe : pageSize * q' / pageSize = q' := Nat.mul_div_cancel_left _ (by decide)
  rw [SetupPtePage] at hd'
  dsimp only at hd'
  rw [hphys, hstart, hend, ← ha', ← hb', ← hq', hshift, hfirst, hlast, Nat.div_one, Nat.div_one,
    hframe, ← scratch] at hd'
  generalize hs' : forTo _ a' (b' - 1) (scratch d page new, d) = s' at hd'
  subst hd'
  have hfill : s'.2 = d ∧ ∀ v, v / span 0 = k → PDE.link (s'.1 (digit fan 0 v)) =
      if a' ≤ v ∧ v < b' then some (q' + (v - a'))
      else PDE.link (scratch d page new (digit fan 0 v)) := by
    have hstop : b' - 1 + 1 = b' := by omega
    rw [← hs', ← hstop]
    refine forTo_rule (fun j (s : (ℕ → PDE) × Device H) => s.2 = d ∧ ∀ v, v / span 0 = k →
      PDE.link (s.1 (digit fan 0 v)) = if a' ≤ v ∧ v < j then some (q' + (v - a'))
        else PDE.link (scratch d page new (digit fan 0 v))) (by omega) ⟨rfl, fun v _ => ?_⟩ ?_
    · rw [if_neg (by omega)]
    · rintro i ⟨table, d₁⟩ hi₁ hi₂ ⟨rfl, hmapped⟩
      have htable : i / pageEntryNum = k := by
        have hspan₀ : span 0 = pageEntryNum := rfl
        rw [← hspan₀, Nat.div_eq_iff hspan]
        omega
      dsimp only
      rw [if_neg (by rw [hpa]; simp)]
      refine ⟨rfl, fun v hv => ?_⟩
      by_cases hvi : v = i
      · rw [(digit_zero_eq_iff hv htable).2 hvi, Function.update_self, if_pos (by omega)]
        refine (if_pos hvalid).trans (congrArg some ?_)
        dsimp only
        omega
      · rw [Function.update_of_ne fun hcon => hvi ((digit_zero_eq_iff hv htable).1 hcon),
          hmapped v hv]
        by_cases hav : a' ≤ v ∧ v < i
        · rw [if_pos hav, if_pos (by omega)]
        · rw [if_neg hav, if_neg (by omega)]
  obtain ⟨hd, hmapped⟩ := hfill
  refine ⟨T, ⟨fun g hg => hg, hd ▸ hinv, trivial, id, fun g hg => ?_, fun g hg => hg.elim,
    fun v hv => ?_⟩⟩
  · rcases hg with hg | hg
    · exact hg.elim
    · refine .inl (by_contra fun hgp => hg ?_)
      dsimp only
      rw [Function.update_of_ne hgp, hd]
  · have hv₁ : k * span 0 ≤ v := hv ▸ Nat.div_mul_le_self v (span 0)
    have hv₂ : v < (k + 1) * span 0 := by
      rw [← Nat.div_lt_iff_lt_mul hspan]
      omega
    rw [walk, walk]
    dsimp only
    rw [Function.update_self, hmapped v hv]
    by_cases hv' : a ≤ v ∧ v < b
    · rw [if_pos hv', if_pos (by omega), hq']
      congr 1
      omega
    · rw [if_neg hv', if_neg (by omega)]

theorem SetupPdePage_builds (halloc : Allocates alloc I) (hvalid : vm.valid_ = true)
    (hpa : vm.malloc_pa_ = false) : Builds I 1 (SetupPdePage alloc vm) :=
  setupTable_builds halloc (SetupPtePage_builds hvalid hpa)
    (fun p => SetupPtePage_keeps (gives_mem alloc p)) hvalid 2 rfl rfl

theorem SetupPdePage_keeps {P : H → List ℕ → Prop} (halloc : Gives alloc P) :
    Keeps P (SetupPdePage alloc vm) :=
  setupTable_keeps halloc (SetupPtePage_keeps halloc) pdeBitShift 2

theorem SetupPd1Page_builds (halloc : Allocates alloc I) (hvalid : vm.valid_ = true)
    (hpa : vm.malloc_pa_ = false) : Builds I 2 (SetupPd1Page alloc vm) :=
  setupTable_builds halloc (SetupPdePage_builds halloc hvalid hpa)
    (fun p => SetupPdePage_keeps (gives_mem alloc p)) hvalid 1 rfl rfl

theorem SetupPd1Page_keeps {P : H → List ℕ → Prop} (halloc : Gives alloc P) :
    Keeps P (SetupPd1Page alloc vm) :=
  setupTable_keeps halloc (SetupPdePage_keeps halloc) pd1BitShift 1

theorem SetupPd0Page_keeps {P : H → List ℕ → Prop} (halloc : Gives alloc P) {vm vm' : ProcessVM}
    {va_start va_end pa_start : ℕ} {d d' : Device H}
    (h : SetupPd0Page alloc vm va_start va_end pa_start d = some (vm', d'))
    (hd : P d.heap d.pages) : P d'.heap d'.pages := by
  rw [SetupPd0Page] at h
  dsimp only at h
  split at h
  · cases h
  · cases h
    exact forTo_keeps (fun i s hs => setupEntry_keeps halloc (SetupPd1Page_keeps halloc) hs) hd

/-- **A call of `mmap`** keeps what is known of the heap and of its pages. -/
theorem mmap_keeps {P : H → List ℕ → Prop} (halloc : Gives alloc P) {vm vm' : ProcessVM}
    {va size pa readable writeable executable system : ℕ} {valid : Bool} {d d' : Device H}
    (h : mmap alloc vm va size pa readable writeable executable valid system d = some (vm', d'))
    (hd : P d.heap d.pages) : P d'.heap d'.pages :=
  SetupPd0Page_keeps halloc h hd

end Codrive.Emu
