import NonlinearProgram.Proofs.Workbench

-- The way of derivatives to the internal problem is the transpose of the way of points to the
-- user's: what is gathered there is scattered here.

namespace NonlinearProgram

open Program Relation Transformation

variable {α : Type} {s t : Store α} {mask : List Bool} {values : List α} {v : View}

-- A row of a matrix that is stored row by row.
def row (columns r : Nat) (xs : List α) : List α := (xs.drop (r * columns)).take columns

theorem length_row {rows columns r : Nat} {xs : List α} (hx : xs.length = rows * columns)
    (hr : r < rows) : (row columns r xs).length = columns := by
  have hle : (r + 1) * columns ≤ rows * columns := Nat.mul_le_mul_right columns hr
  rw [row, List.length_take, List.length_drop, hx]
  rw [Nat.add_mul] at hle
  omega

theorem length_flatMap_rows {f : Nat → List α} {columns rows : Nat}
    (h : ∀ r < rows, (f r).length = columns) :
    ((List.range rows).flatMap f).length = rows * columns := by
  rw [List.length_flatMap, List.map_congr_left fun r hr => h r (List.mem_range.mp hr)]
  simp

theorem row_flatMap {f : Nat → List α} {columns rows r : Nat}
    (h : ∀ r < rows, (f r).length = columns) (hr : r < rows) :
    row columns r ((List.range rows).flatMap f) = f r := by
  have ⟨k, hk⟩ := Nat.exists_eq_add_of_lt hr
  have hfront : ((List.range r).flatMap f).length = r * columns :=
    length_flatMap_rows fun q hq => h q (by omega)
  rw [row, hk, Nat.add_right_comm, List.range_add, List.range_succ, List.flatMap_append,
    List.flatMap_append, List.flatMap_singleton, List.append_assoc, List.drop_left' hfront,
    List.take_left' (h r hr)]

namespace Tensor

-- Gathering along the second of two axes is gathering in every row.
theorem gatherColumns?_of_shape {x : Tensor α} {rows columns : Nat} {picks : List Nat}
    (hs : x.shape = [rows, columns]) (hp : ∀ i ∈ picks, i < columns) :
    x.gatherColumns? picks = some ⟨[rows, picks.length],
      (List.range rows).flatMap fun r => gather (row columns r x.entries) picks⟩ := by
  have hall : picks.all (· < columns) := by simpa [List.all_eq_true] using hp
  have hrow (r : Nat) : picks.flatMap (fun i => (x.entries.drop (r * columns + i)).take 1) =
      gather (row columns r x.entries) picks := by
    clear hall
    induction picks
    case nil => rfl
    case cons i picks hi =>
      have ⟨h, hp⟩ := List.forall_mem_cons.mp hp
      rw [List.flatMap_cons, hi hp, gather_cons, List.take_one, List.head?_drop, row,
        List.getElem?_take_of_lt h, List.getElem?_drop]
  have hb : sizeOf [] = 1 := rfl
  simp only [gatherColumns?, hs, hall, if_true, hb, Nat.mul_one, hrow]

end Tensor

namespace Remover

variable {r : Remover α}

theorem jacobianToInternal_run {rows : Nat} (h : r.Intact mask values s)
    (hv : v.shape = [rows, mask.length]) :
    r.jacobianToInternal v s = StoreM.alloc ⟨[rows, (clearPositions mask).length],
      (List.range rows).flatMap fun k => restrict mask (row mask.length k (s.entries v))⟩ s := by
  have hg := Tensor.gatherColumns?_of_shape (x := s.read v) hv fun i hi => h.freeIndices_lt hi
  rw [jacobianToInternal, bind_of_ok (StoreM.read_run v s), hg, h.freeIndices]
  rfl

end Remover

namespace Transformation.Composes

variable {made items : List (Transformation α)} {picks : List Nat} {base : List α}
  (hsub : ∀ item ∈ items, item ∈ made)

include hsub

theorem gradientToInternal_run (h : Composes s items picks base) (hg : v.shape = [base.length])
    (hv : s.Valid v) : ∃ w t,
      items.foldlM (fun v item => item.gradientToInternal v) v s = (.ok w, t) ∧
        w.shape = [picks.length] ∧ t.Valid w ∧ t.entries w = gather (s.entries v) picks ∧
        Preserves made s t := by
  have hlen : (s.entries v).length = base.length :=
    Store.length_entries_of_shape hv hg
  induction items generalizing s picks base v
  case nil =>
    cases h
    refine ⟨v, s, rfl, by simpa using hg, hv, ?_, .refl made s⟩
    rw [← hlen, gather_range]
  case cons item items ih =>
    have ⟨hm, hrest⟩ := List.forall_mem_cons.mp hsub
    rw [List.foldlM_cons]
    cases h
    case remover r picks base mask values hr hl h =>
      rw [length_scatter, hr.length_values] at hg hlen
      let x := Tensor.ofList (restrict mask (s.entries v))
      have ht : (Transformation.remover r).gradientToInternal v s =
          (.ok (s.alloc x).1, (s.alloc x).2) := Remover.gatherNew_run hr.toIntact hg hv
      have hx : x.entries.length = base.length := by
        rw [hl, hr.freeIndices, ← length_restrict hlen]
        rfl
      have hp : Preserves made s (s.alloc x).2 := .alloc x
      have ⟨w, u, hu, hwshape, hwv, hwe, hp'⟩ := ih hrest (h.preserves hp hrest)
        (congrArg (fun n => [n]) hx) (Store.valid_alloc x (Tensor.sizeOf_singleton _).symm)
        (by rw [Store.entries_alloc_ofList]; exact hx)
      refine ⟨w, u, ?_, ?_, hwv, ?_, hp.trans hp'⟩
      · rw [bind_of_ok ht, hu]
      · rw [hwshape, length_gather fun i hi => hl ▸ h.lt i hi]
      · rw [hwe, Store.entries_alloc_ofList, restrict, ← hr.freeIndices, gather_gather]
        exact fun i hi => hlen ▸ hr.toIntact.freeIndices_lt hi
    case relaxer h => exact ih hrest h hg hv hlen
    case objective h => exact ih hrest h hg hv hlen

theorem jacobianToInternal_run {rows : Nat} (h : Composes s items picks base)
    (hj : v.shape = [rows, base.length]) (hv : s.Valid v) : ∃ w t,
      items.foldlM (fun v item => item.jacobianToInternal v) v s = (.ok w, t) ∧
        w.shape = [rows, picks.length] ∧ t.Valid w ∧ (∀ k < rows, row picks.length k (t.entries w) =
          gather (row base.length k (s.entries v)) picks) ∧
        Preserves made s t := by
  have hlen : (s.entries v).length = rows * base.length :=
    Store.length_entries_of_shape_pair hv hj
  induction items generalizing s picks base v
  case nil =>
    cases h
    refine ⟨v, s, rfl, by simpa using hj, hv, fun k hk => ?_, .refl made s⟩
    have hgather := gather_range (row base.length k (s.entries v))
    rw [length_row hlen hk] at hgather
    rw [List.length_range, hgather]
  case cons item items ih =>
    obtain ⟨hm, hrest⟩ := List.forall_mem_cons.mp hsub
    rw [List.foldlM_cons]
    cases h
    case remover r picks base mask values hr hl h =>
      rw [length_scatter, hr.length_values] at hj hlen
      have hbase : (clearPositions mask).length = base.length := by rw [hl, hr.freeIndices]
      have hrow {k : Nat} (hk : k < rows) :
          (restrict mask (row mask.length k (s.entries v))).length = base.length := by
        rw [length_restrict (length_row hlen hk), hbase]
      let x : Tensor α := ⟨[rows, (clearPositions mask).length],
        (List.range rows).flatMap fun k => restrict mask (row mask.length k (s.entries v))⟩
      have ht : (Transformation.remover r).jacobianToInternal v s =
          (.ok (s.alloc x).1, (s.alloc x).2) := Remover.jacobianToInternal_run hr.toIntact hj
      have hx : x.entries.length = Tensor.sizeOf x.shape := by
        rw [Tensor.sizeOf_pair, hbase]
        exact length_flatMap_rows fun k hk => hrow hk
      have hp : Preserves made s (s.alloc x).2 := .alloc x
      obtain ⟨w, u, hu, hwshape, hwv, hwe, hp'⟩ := ih hrest (h.preserves hp hrest)
        (congrArg (fun n => [rows, n]) hbase) (Store.valid_alloc x hx)
        (by rw [Store.entries_alloc hx, hx, Tensor.sizeOf_pair, hbase])
      refine ⟨w, u, ?_, ?_, hwv, fun k hk => ?_, hp.trans hp'⟩
      · rw [bind_of_ok ht, hu]
      · rw [hwshape, length_gather fun i hi => hl ▸ h.lt i hi]
      · rw [length_gather fun i hi => hl ▸ h.lt i hi, hwe k hk, Store.entries_alloc hx,
          row_flatMap (fun k hk => hrow hk) hk, length_scatter, hr.length_values, restrict,
          ← hr.freeIndices, gather_gather]
        intro i hi
        rw [length_row hlen hk]
        exact hr.toIntact.freeIndices_lt hi
    case relaxer h => exact ih hrest h hj hv hlen
    case objective h => exact ih hrest h hj hv hlen

end Transformation.Composes

theorem gather_map_entries {β : Type} (f : α → β) (xs : List α) (picks : List Nat) :
    gather (xs.map f) picks = (gather xs picks).map f := by
  simp [gather, List.map_filterMap]

theorem zipWith_sub_of_add {xs ys : List Rat} (h : xs.length = ys.length) :
    List.zipWith (· - ·) (List.zipWith (· + ·) xs ys) xs = ys := by
  apply List.ext_getElem
  · simp [h]
  · intro i _ _
    simp

theorem sum_products_sub {gs xs ys : List Rat} (h : xs.length = ys.length) :
    (List.zipWith (· * ·) gs (List.zipWith (· - ·) xs ys)).sum =
      (List.zipWith (· * ·) gs xs).sum - (List.zipWith (· * ·) gs ys).sum := by
  induction gs generalizing xs ys
  case nil => simp
  case cons g gs hi =>
    cases xs <;> cases ys
    case nil.nil => simp
    case nil.cons => simp at h
    case cons.nil => simp at h
    case cons.cons x xs y ys =>
      have hi := hi (Nat.succ.inj h)
      simp only [List.zipWith_cons_cons, List.sum_cons, hi]
      ring

-- What an entry gains, a sum of products gains with the entry's factor.
theorem sum_set {gs base : List Rat} {i : Nat} {g b : Rat} (hg : gs[i]? = some g)
    (hb : base[i]? = some b) (x : Rat) :
    (List.zipWith (· * ·) gs (base.set i x)).sum =
      (List.zipWith (· * ·) gs base).sum + g * (x - b) := by
  induction gs generalizing base i
  case nil => simp at hg
  case cons g' gs hi =>
    cases base
    case nil => simp at hb
    case cons b' base =>
      cases i
      case zero =>
        cases hg
        cases hb
        simp only [List.set_cons_zero, List.zipWith_cons_cons, List.sum_cons]
        ring
      case succ i =>
        have h := hi hg hb
        simp only [List.set_cons_succ, List.zipWith_cons_cons, List.sum_cons, h, add_assoc]

theorem sum_scatter {gs xs base : List Rat} {picks : List Nat} (hd : picks.Nodup)
    (hp : ∀ i ∈ picks, i < base.length) (hg : gs.length = base.length)
    (hx : xs.length = picks.length) :
    (List.zipWith (· * ·) gs (scatter picks xs base)).sum =
      (List.zipWith (· * ·) gs base).sum +
        (List.zipWith (· * ·) (gather gs picks)
          (List.zipWith (· - ·) xs (gather base picks))).sum := by
  induction picks generalizing xs base
  case nil => simp [scatter, gather]
  case cons i picks hi =>
    cases xs
    case nil => simp at hx
    case cons x xs =>
      obtain ⟨hni, hd⟩ := List.nodup_cons.mp hd
      obtain ⟨hlt, hp⟩ := List.forall_mem_cons.mp hp
      have hgi := List.getElem?_eq_getElem (hg ▸ hlt : i < gs.length)
      have hbi := List.getElem?_eq_getElem hlt
      have hkept : gather (base.set i x) picks = gather base picks := by
        refine List.filterMap_congr fun k hk => List.getElem?_set_ne ?_
        intro he
        exact hni (he ▸ hk)
      rw [scatter_cons, hi hd (by simpa using hp) (by simpa using hg) (Nat.succ.inj hx), hkept,
        sum_set hgi hbi, gather_cons, gather_cons, hgi, hbi]
      simp only [Option.toList_some, List.singleton_append, List.zipWith_cons_cons, List.sum_cons,
        add_assoc]

-- Scattering is the transpose of gathering.
theorem sum_scatter_sub {gs xs ys base : List Rat} {picks : List Nat} (hd : picks.Nodup)
    (hp : ∀ i ∈ picks, i < base.length) (hg : gs.length = base.length)
    (hx : xs.length = picks.length) (hy : ys.length = picks.length) :
    (List.zipWith (· * ·) gs
      (List.zipWith (· - ·) (scatter picks xs base) (scatter picks ys base))).sum =
      (List.zipWith (· * ·) (gather gs picks) (List.zipWith (· - ·) xs ys)).sum := by
  have hb : (gather base picks).length = picks.length := length_gather hp
  rw [sum_products_sub (by simp only [length_scatter]), sum_scatter hd hp hg hx,
    sum_scatter hd hp hg hy, sum_products_sub (hx.trans hb.symm),
    sum_products_sub (hy.trans hb.symm), sum_products_sub (hx.trans hy.symm)]
  ring

namespace Exact

theorem products_finite (xs ys : List Rat) :
    List.zipWith (· * ·) (xs.map finite) (ys.map finite) =
      (List.zipWith (· * ·) xs ys).map finite := by
  rw [List.zipWith_map, List.map_zipWith]
  rfl

theorem differences_finite (xs ys : List Rat) :
    List.zipWith (· - ·) (xs.map finite) (ys.map finite) =
      (List.zipWith (· - ·) xs ys).map finite := by
  rw [List.zipWith_map, List.map_zipWith]
  congr
  funext x y
  exact congrArg finite (Rat.sub_eq_add_neg x y).symm

theorem sum_finite (xs : List Rat) : (xs.map finite).sum = finite xs.sum := by
  induction xs
  case nil => rfl
  case cons x xs hi =>
    rw [List.map_cons, List.sum_cons, hi, List.sum_cons]
    rfl

-- The rational number that a finite scalar is.
def toRat : Exact → Rat
  | .finite q => q
  | _ => 0

-- Where the entries below are finite, or do not shine through, so is what is scattered over them.
theorem exists_scatter_finite {base : List Exact} {picks : List Nat} (hd : picks.Nodup)
    (hp : ∀ i ∈ picks, i < base.length)
    (hb : ∀ {i x}, i ∉ picks → base[i]? = some x → ∃ q, x = finite q) :
    ∃ qs : List Rat, qs.length = base.length ∧ ∀ xs : List Rat, xs.length = picks.length →
      scatter picks (xs.map finite) base = (scatter picks xs qs).map finite := by
  refine ⟨base.map toRat, List.length_map _, fun xs hx => ?_⟩
  apply List.ext_getElem?
  intro i
  rw [List.getElem?_map]
  by_cases hm : i ∈ picks
  case pos =>
    have hi := hp i hm
    obtain ⟨k, hk⟩ := List.getElem?_of_mem hm
    rw [getElem?_scatter hd (by rw [List.length_map, hx]) hk hi,
      getElem?_scatter hd hx hk (by rwa [List.length_map]), List.getElem?_map]
  case neg =>
    rw [getElem?_scatter_of_not_mem hm, getElem?_scatter_of_not_mem hm, List.getElem?_map]
    cases hi : base[i]?
    case none => rfl
    case some x =>
      obtain ⟨q, hq⟩ := hb hm hi
      rw [hq]
      rfl

end Exact

namespace Transformation

theorem remover_mem_of_eliminator? {items : List (Transformation α)} {i k : Nat} {r : Remover α}
    (h : eliminator? items i = some (r, k)) : .remover r ∈ items := by
  induction items generalizing i
  case nil => cases h
  case cons item items ih =>
    cases item
    case remover q =>
      rw [eliminator?] at h
      split at h
      case isTrue =>
        cases h
        exact List.mem_cons_self
      case isFalse =>
        split at h
        case isTrue => exact List.mem_cons_of_mem _ (ih h)
        case isFalse => cases h
    case relaxer => exact List.mem_cons_of_mem _ (ih h)
    case objective => exact List.mem_cons_of_mem _ (ih h)

-- Where removers store finite values, so is all that their chain does not pick.
theorem Composes.finite_of_stored {s : Store Exact} {items : List (Transformation Exact)}
    {picks : List Nat} {base : List Exact} (h : Composes s items picks base)
    (hf : ∀ r, .remover r ∈ items → ∀ x ∈ r.fixedValues, ∃ q, x = .finite q) {i : Nat} {x : Exact}
    (hi : i ∉ picks) (hx : base[i]? = some x) : ∃ q, x = .finite q := by
  have ⟨hlt, _⟩ := List.getElem?_eq_some_iff.mp hx
  cases he : eliminator? items i
  case none => exact absurd ((h.mem_iff hlt).mpr he) hi
  case some e =>
    have ⟨_, v, hv, hb⟩ := h.stored he
    cases hx.symm.trans hb
    exact hf _ (remover_mem_of_eliminator? he) _ (List.mem_of_getElem? hv)

end Transformation

namespace Workbench

open Exact

variable {b : Workbench Exact} {n : Int} {store : Store Exact}

-- The transformations in the chain act together as one remover does.
theorem Orderly.exists_composes {α : Type} [Scalar α] {n : Int} {b : Workbench α} (h : Orderly n b)
    {j k : Nat} (hj : b.chain.userSize = .integer j) (hk : b.chain.internalSize = .integer k) :
    ∃ picks base, Composes b.store b.chain.items picks base ∧ base.length = j ∧
      picks.length = k := by
  have ⟨m, hfits⟩ := h.fits
  have hn : (j : Int) = n := RawValue.integer.inj (hj.symm.trans h.size)
  have hm : m = k := by
    have hs := hfits.internalSize
    rw [← h.size] at hs
    exact RawValue.integer.inj (hs.symm.trans hk)
  have ⟨picks, base, hc, hl, hp⟩ := hfits.exists_composes (fun r hr => h.holds r (h.made _ hr)) hn
  exact ⟨picks, base, hc, hl, by omega⟩

theorem derivatives_exact (h : ReflTransGen Step (Workbench.blank n store) b) {j k : Nat}
    (hj : b.chain.userSize = .integer j) (hk : b.chain.internalSize = .integer k)
    (hfinite : ∀ r, .remover r ∈ b.chain.items → ∀ x ∈ r.fixedValues, ∃ q, x = .finite q) :
    (∀ (g y y' : View) (gs ys vs : List Rat), g.shape = [j] → y.shape = [k] → y'.shape = [k] →
      b.store.Valid g → b.store.Valid y → b.store.Valid y' → b.store.entries g = gs.map .finite →
      b.store.entries y = ys.map .finite → vs.length = k →
      b.store.entries y' = (List.zipWith (· + ·) ys vs).map .finite →
      ∃ d u x t x' t', b.chain.gradientToInternal g b.store = (.ok d, u) ∧
        b.chain.pointToUser y b.store = (.ok x, t) ∧
        b.chain.pointToUser y' b.store = (.ok x', t') ∧
        (List.zipWith (· * ·) (u.entries d) (vs.map .finite)).sum =
          (List.zipWith (· * ·) (b.store.entries g)
            (List.zipWith (· - ·) (t'.entries x') (t.entries x))).sum) ∧
    ∀ (jac : View) (rows : Nat), jac.shape = [rows, j] → b.store.Valid jac →
      ∃ inner t, b.chain.jacobianToInternal jac b.store = (.ok inner, t) ∧
        inner.shape = [rows, k] ∧ ∀ r < rows, ∀ g : View, g.shape = [j] → b.store.Valid g →
          b.store.entries g = row j r (b.store.entries jac) →
          ∃ d u, b.chain.gradientToInternal g b.store = (.ok d, u) ∧
            row k r (t.entries inner) = u.entries d := by
  have ho := Orderly.of_steps h
  have ⟨picks, base, hc, hbase, hpicks⟩ := ho.exists_composes hj hk
  subst hbase
  subst hpicks
  constructor
  case left =>
    intro g y y' gs ys vs hg hy hy' hgv hyv hyv' hgs hys hvs hys'
    have ⟨d, u, hd, _, _, hde, _⟩ := hc.gradientToInternal_run ho.made hg hgv
    have ⟨x, t, hx, _, _, hxe, _⟩ := hc.pointToUser_run ho.separate ho.made hy hyv
    have ⟨x', t', hx', _, _, hxe', _⟩ := hc.pointToUser_run ho.separate ho.made hy' hyv'
    refine ⟨d, u, x, t, x', t', hd, hx, hx', ?_⟩
    have ⟨qs, hqs, hscatter⟩ := exists_scatter_finite hc.nodup hc.lt (hc.finite_of_stored hfinite)
    have hgl : gs.length = qs.length := by
      rw [hqs, ← View.size_of_shape hg, ← Store.length_entries hgv, hgs, List.length_map]
    have hyl : ys.length = picks.length := by
      rw [← View.size_of_shape hy, ← Store.length_entries hyv, hys, List.length_map]
    have hsum : (List.zipWith (· + ·) ys vs).length = picks.length := by
      rw [List.length_zipWith, hyl, hvs, Nat.min_self]
    rw [hde, hxe, hxe', hgs, hys, hys', hscatter _ hyl, hscatter _ hsum, gather_map_entries,
      products_finite, sum_finite, differences_finite, products_finite, sum_finite,
      sum_scatter_sub hc.nodup (hqs ▸ hc.lt) hgl hsum hyl,
      zipWith_sub_of_add (hyl.trans hvs.symm)]
  case right =>
    intro jac rows hshape hv
    have ⟨inner, t, hi, hshape', _, hrows, _⟩ := hc.jacobianToInternal_run ho.made hshape hv
    refine ⟨inner, t, hi, hshape', fun r hr g hg hgv hge => ?_⟩
    have ⟨d, u, hd, _, _, hde, _⟩ := hc.gradientToInternal_run ho.made hg hgv
    exact ⟨d, u, hd, by rw [hrows r hr, hde, hge]⟩

-- Two points, a gradient and a Jacobian.
def surveyed : Workbench Exact := blank 4 ⟨[
  ⟨[.finite 1, .finite 3], [2], true⟩, ⟨[.finite 2, .finite 5], [2], true⟩,
  ⟨[.finite 5, .finite 8, .finite 6, .finite 4], [4], true⟩,
  ⟨(List.range 8).map fun i => .finite i, [2, 4], true⟩]⟩

-- The second of four variables is eliminated, and then the last one.
def reduced : Workbench Exact :=
  (surveyed.withRemover [false, true, false, false] [0, .finite 7, 0, 0]).withRemover
    [false, false, true] [0, 0, .finite 9]

theorem reduced_steps : ReflTransGen Step surveyed reduced := by
  have hfirst : ReflTransGen Step surveyed
      (surveyed.withRemover [false, true, false, false] [0, .finite 7, 0, 0]) :=
    withRemover_steps rfl rfl
  exact hfirst.trans (withRemover_steps rfl rfl)

-- The slope along a step by 1 and 2 is the same from both sides, and the second row is mapped like
-- a gradient.
theorem derivatives_exact_reduced :
    (∃ d u x t x' t', reduced.chain.gradientToInternal ⟨2, [4]⟩ reduced.store = (.ok d, u) ∧
      reduced.chain.pointToUser ⟨0, [2]⟩ reduced.store = (.ok x, t) ∧
      reduced.chain.pointToUser ⟨1, [2]⟩ reduced.store = (.ok x', t') ∧
      (List.zipWith (· * ·) (u.entries d) [.finite 1, .finite 2]).sum =
        (List.zipWith (· * ·) [.finite 5, .finite 8, .finite 6, .finite 4]
          (List.zipWith (· - ·) (t'.entries x') (t.entries x))).sum) ∧
    ∃ inner t, reduced.chain.jacobianToInternal ⟨3, [2, 4]⟩ reduced.store = (.ok inner, t) ∧
      inner.shape = [2, 2] := by
  have hfinite : ∀ r, .remover r ∈ reduced.chain.items → ∀ x ∈ r.fixedValues,
      ∃ q, x = Exact.finite q := by
    intro r hr x hx
    cases hr
    case head => exact ⟨7, List.mem_singleton.mp (hx : x ∈ [.finite 7])⟩
    case tail hr =>
      cases hr
      case head => exact ⟨9, List.mem_singleton.mp (hx : x ∈ [.finite 9])⟩
      case tail hr => cases hr
  have ⟨hslope, hrows⟩ := @derivatives_exact reduced 4 _ reduced_steps 4 2 rfl rfl hfinite
  constructor
  case left =>
    exact hslope ⟨2, [4]⟩ ⟨0, [2]⟩ ⟨1, [2]⟩ [5, 8, 6, 4] [1, 3] [1, 2] rfl rfl rfl
      ⟨_, rfl, by decide⟩ ⟨_, rfl, by decide⟩ ⟨_, rfl, by decide⟩ rfl rfl rfl
      (by decide +kernel)
  case right =>
    have ⟨inner, t, hi, hshape, _⟩ := hrows ⟨3, [2, 4]⟩ 2 rfl ⟨_, rfl, by decide⟩
    exact ⟨inner, t, hi, hshape⟩

end Workbench
end NonlinearProgram
