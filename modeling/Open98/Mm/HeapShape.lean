import Open98.Library.TwoWayList
import Open98.Mm.HeapMemory

/-! What the structures of liballoc in memory stand for: a list of major blocks, each cut into minor blocks. -/
namespace Open98.Mm
open Library

section Blocks

/-- A minor block: `size` bytes behind a header of 40, for a request of `reqSize` bytes. -/
structure MinorBlock where
  adr : ℕ
  size : ℕ
  reqSize : ℕ

namespace MinorBlock

def stop (b : MinorBlock) : ℕ := b.adr + 40 + b.size

/-- The pointer that the caller of `malloc` has. -/
def user (b : MinorBlock) : ℕ := aligned (b.adr + 40)

lemma user_bounds (b : MinorBlock) : b.adr + 56 ≤ b.user ∧ b.user ≤ b.adr + 71 ∧ b.user % 16 = 0 := by
  obtain ⟨hlow, hhigh, hmod⟩ := aligned_bounds (b.adr + 40)
  exact ⟨hlow, hhigh, hmod⟩

end MinorBlock

/-- Minor blocks in the order of their addresses, with room for what was asked for. -/
structure Laid (lo hi : ℕ) (l : List MinorBlock) : Prop where
  apart : l.Pairwise fun b c => b.stop ≤ c.adr
  inside : ∀ b ∈ l, lo ≤ b.adr ∧ b.stop ≤ hi
  room : ∀ b ∈ l, b.reqSize + 32 ≤ b.size

def usageOf (l : List MinorBlock) : ℕ := 40 + (l.map fun b => b.size + 40).sum

/-- A major block: pages of the direct map, with a header of 40 bytes. -/
structure MajorBlock where
  adr : ℕ
  pages : ℕ
  minors : List MinorBlock
  low : physMemOffset.toNat ≤ adr
  high : adr + pages*4096 ≤ 2^64
  some_pages : 0 < pages
  pages_lt : pages < 2^20
  laid : Laid (adr + 40) (adr + pages*4096) minors

namespace MajorBlock

def limit (M : MajorBlock) : ℕ := M.adr + M.pages*4096

def Apart (M N : MajorBlock) : Prop := M.limit ≤ N.adr ∨ N.limit ≤ M.adr

/-- Bytes of the header behind the links, and of the headers and paddings of the minor blocks. -/
def Meta (M : MajorBlock) (a : ℕ) : Prop :=
  (M.adr + 16 ≤ a ∧ a < M.adr + 40) ∨ ∃ b ∈ M.minors, b.adr ≤ a ∧ a < b.user

end MajorBlock

end Blocks

section Order
variable {lo hi : ℕ} {l l₁ l₂ : List MinorBlock} {b c new : MinorBlock}

lemma Laid.tail (h : Laid lo hi (b :: l)) : Laid b.stop hi l := by
  obtain ⟨hfirst, hrest⟩ := List.pairwise_cons.mp h.apart
  exact ⟨hrest, fun c hc => ⟨hfirst c hc, (h.inside c (List.mem_cons_of_mem _ hc)).2⟩,
    fun c hc => h.room c (List.mem_cons_of_mem _ hc)⟩

/-- The blocks and their headers fit between the bounds. -/
lemma Laid.usageOf_le (h : Laid lo hi l) (hle : lo ≤ hi) : lo + usageOf l ≤ hi + 40 := by
  unfold usageOf
  induction l generalizing lo with
  | nil => simpa using hle
  | cons b l ih =>
    obtain ⟨hlow, hhigh⟩ := h.inside b List.mem_cons_self
    have hrest := ih h.tail hhigh
    unfold MinorBlock.stop at hrest
    rw [List.map_cons, List.sum_cons]
    omega

lemma Laid.insert (h : Laid lo hi (l₁ ++ l₂)) (hbefore : ∀ b ∈ l₁, b.stop ≤ new.adr)
    (hbehind : ∀ c ∈ l₂, new.stop ≤ c.adr) (hlow : lo ≤ new.adr) (hhigh : new.stop ≤ hi)
    (hroom : new.reqSize + 32 ≤ new.size) : Laid lo hi (l₁ ++ new :: l₂) := by
  obtain ⟨h₁, h₂, hacross⟩ := List.pairwise_append.mp h.apart
  have hmem : ∀ b ∈ l₁ ++ new :: l₂, b = new ∨ b ∈ l₁ ++ l₂ := by
    intro b hb
    simp only [List.mem_append, List.mem_cons] at hb ⊢
    tauto
  refine ⟨List.pairwise_append.mpr ⟨h₁, List.pairwise_cons.mpr ⟨hbehind, h₂⟩, fun b hb c hc => ?_⟩,
    fun b hb => ?_, fun b hb => ?_⟩
  · rcases List.mem_cons.mp hc with rfl | hc
    · exact hbefore b hb
    · exact hacross b hb c hc
  · rcases hmem b hb with rfl | hb
    · exact ⟨hlow, hhigh⟩
    · exact h.inside b hb
  · rcases hmem b hb with rfl | hb
    · exact hroom
    · exact h.room b hb

lemma Laid.sublist (h : Laid lo hi l) (hsub : l₁.Sublist l) : Laid lo hi l₁ :=
  ⟨h.apart.sublist hsub, fun b hb => h.inside b (hsub.subset hb), fun b hb => h.room b (hsub.subset hb)⟩

lemma Laid.remove (h : Laid lo hi (l₁ ++ c :: l₂)) : Laid lo hi (l₁ ++ l₂) :=
  h.sublist ((List.Sublist.refl l₁).append (List.sublist_cons_self c l₂))

/-- Different blocks have different addresses. -/
lemma Laid.nodup (h : Laid lo hi l) : (l.map MinorBlock.adr).Nodup := by
  refine List.pairwise_map.mpr (h.apart.imp fun {b c} hbc => ?_)
  unfold MinorBlock.stop at hbc
  omega

/-- The blocks beside a place in the list. -/
lemma Laid.around (h : Laid lo hi (l₁ ++ c :: l₂)) :
    (∀ b ∈ l₁, b.stop ≤ c.adr) ∧ ∀ b ∈ l₂, c.stop ≤ b.adr := by
  obtain ⟨-, hcons, hacross⟩ := List.pairwise_append.mp h.apart
  exact ⟨fun b hb => hacross b hb c List.mem_cons_self, (List.pairwise_cons.mp hcons).1⟩

lemma Laid.headD_le {x : ℕ} (h : Laid lo hi l) (hx : x ≤ (l.map MinorBlock.adr).headD hi) :
    (∀ c ∈ l, x ≤ c.adr) ∧ x ≤ hi := by
  cases l with
  | nil => exact ⟨by simp, hx⟩
  | cons b l =>
    have hxb : x ≤ b.adr := hx
    obtain ⟨-, hb⟩ := h.inside b List.mem_cons_self
    have hbehind := (List.pairwise_cons.mp h.apart).1
    have hstop : b.adr ≤ b.stop := by
      unfold MinorBlock.stop
      omega
    refine ⟨fun c hc => ?_, by omega⟩
    rcases List.mem_cons.mp hc with rfl | hc
    · exact hxb
    · exact hxb.trans (hstop.trans (hbehind c hc))

/-- Room behind a block, or in front of all of them. -/
lemma Laid.fill_gap (h : Laid lo hi (l₁ ++ b :: l₂)) (hadr : new.adr = b.stop)
    (hgap : new.stop ≤ (l₂.map MinorBlock.adr).headD hi) (hroom : new.reqSize + 32 ≤ new.size) :
    Laid lo hi (l₁ ++ b :: new :: l₂) := by
  have happend : ∀ l, l₁ ++ b :: l = (l₁ ++ [b]) ++ l := by simp
  obtain ⟨hbefore, -⟩ := h.around
  obtain ⟨hlow, -⟩ := h.inside b (by simp)
  have hrest : Laid lo hi l₂ := h.sublist (by simp)
  obtain ⟨hbehind, hhigh⟩ := hrest.headD_le hgap
  have hstop : b.adr ≤ b.stop := by
    unfold MinorBlock.stop
    omega
  rw [happend] at h ⊢
  refine h.insert (fun x hx => ?_) hbehind (by omega) hhigh hroom
  rcases List.mem_append.mp hx with hx | hx
  · exact (hbefore x hx).trans (by omega)
  · obtain rfl := List.mem_singleton.mp hx
    exact hadr.ge

lemma Laid.fill_front (h : Laid lo hi l) (hadr : new.adr = lo) (hgap : new.stop ≤ (l.map MinorBlock.adr).headD hi)
    (hroom : new.reqSize + 32 ≤ new.size) : Laid lo hi (new :: l) := by
  obtain ⟨hbehind, hhigh⟩ := h.headD_le hgap
  have hfront : Laid lo hi ([] ++ l) := h
  exact hfront.insert (by simp) hbehind hadr.ge hhigh hroom

/-- Two different blocks of the list do not meet. -/
lemma Laid.separate (h : Laid lo hi l) (hb : b ∈ l) (hc : c ∈ l) : b = c ∨ b.stop ≤ c.adr ∨ c.stop ≤ b.adr := by
  obtain ⟨l₁, l₂, rfl⟩ := List.append_of_mem hb
  obtain ⟨hbefore, hbehind⟩ := h.around
  rcases List.mem_append.mp hc with hc | hc
  · exact .inr (.inr (hbefore c hc))
  · rcases List.mem_cons.mp hc with rfl | hc
    · exact .inl rfl
    · exact .inr (.inl (hbehind c hc))

end Order

section Contents

def nextAt (m : ByteMemory) (a : ℕ) : ℕ := loadBytes m (a+8) 8
def prevAt (m : ByteMemory) (a : ℕ) : ℕ := loadBytes m a 8

/-- The header of a minor block of the major block at `maj`, links aside, and its alignment byte. -/
structure MinorBlock.Tagged (m : ByteMemory) (maj : ℕ) (b : MinorBlock) : Prop where
  block : loadBytes m (b.adr+16) 8 = maj
  magic : loadBytes m (b.adr+24) 4 = liballocMagic.toNat
  size : loadBytes m (b.adr+28) 4 = b.size
  reqSize : loadBytes m (b.adr+32) 4 = b.reqSize
  shift : m (b.user - 16) = BitVec.ofNat 8 (b.user - (b.adr+40))

/-- The major block as it lies in memory, links to other major blocks aside. -/
structure MajorBlock.Holds (m : ByteMemory) (M : MajorBlock) : Prop where
  pages : loadBytes m (M.adr+16) 4 = M.pages
  size : loadBytes m (M.adr+20) 4 = M.pages*4096
  usage : loadBytes m (M.adr+24) 4 = usageOf M.minors
  first : loadBytes m (M.adr+32) 8 = (M.minors.map MinorBlock.adr).headD 0
  links : Linked (nextAt m) (prevAt m) 0 (M.minors.map MinorBlock.adr) 0
  tagged : ∀ b ∈ M.minors, b.Tagged m M.adr

variable {m m' : ByteMemory} {maj : ℕ} {b : MinorBlock} {M : MajorBlock}

lemma MinorBlock.Tagged.congr (h : b.Tagged m maj) (heq : ∀ a, b.adr + 16 ≤ a → a < b.user → m' a = m a) :
    b.Tagged m' maj := by
  obtain ⟨hlow, -, -⟩ := b.user_bounds
  have hload : ∀ k n, 16 ≤ k → k + n ≤ 56 → loadBytes m' (b.adr + k) n = loadBytes m (b.adr + k) n :=
    fun k n hk hn => loadBytes_congr fun a ha hlt => heq a (by omega) (by omega)
  exact ⟨(hload 16 8 (by omega) (by omega)).trans h.block, (hload 24 4 (by omega) (by omega)).trans h.magic,
    (hload 28 4 (by omega) (by omega)).trans h.size, (hload 32 4 (by omega) (by omega)).trans h.reqSize,
    (heq _ (by omega) (by omega)).trans h.shift⟩

lemma MajorBlock.Holds.congr (h : M.Holds m) (heq : ∀ a, M.Meta a → m' a = m a) : M.Holds m' := by
  have hheader : ∀ k n, 16 ≤ k → k + n ≤ 40 → loadBytes m' (M.adr + k) n = loadBytes m (M.adr + k) n :=
    fun k n hk hn => loadBytes_congr fun a ha hlt => heq a (.inl ⟨by omega, by omega⟩)
  have hminor : ∀ b ∈ M.minors, ∀ k, k + 8 ≤ 56 → loadBytes m' (b.adr + k) 8 = loadBytes m (b.adr + k) 8 := by
    intro b hb k hk
    obtain ⟨hlow, -, -⟩ := b.user_bounds
    exact loadBytes_congr fun a ha hlt => heq a (.inr ⟨b, hb, by omega, by omega⟩)
  refine ⟨(hheader 16 4 (by omega) (by omega)).trans h.pages, (hheader 20 4 (by omega) (by omega)).trans h.size,
    (hheader 24 4 (by omega) (by omega)).trans h.usage, (hheader 32 8 (by omega) (by omega)).trans h.first,
    h.links.congr ?_ ?_, fun b hb => (h.tagged b hb).congr fun a ha hlt => heq a (.inr ⟨b, hb, by omega, hlt⟩)⟩
  · intro x hx
    obtain ⟨b, hb, rfl⟩ := List.mem_map.mp hx
    exact hminor b hb 8 (by omega)
  · intro x hx
    obtain ⟨b, hb, rfl⟩ := List.mem_map.mp hx
    exact hminor b hb 0 (by omega)

/-- The bytes of a major block that are not its caller's lie behind its links. -/
lemma MajorBlock.Meta.bounds {a : ℕ} (h : M.Meta a) : M.adr + 16 ≤ a ∧ a < M.limit := by
  have hlaid := M.laid
  have hpages := M.some_pages
  unfold MajorBlock.limit
  rcases h with ⟨hlow, hhigh⟩ | ⟨b, hb, hlow, hhigh⟩
  · exact ⟨hlow, by omega⟩
  · obtain ⟨hfrom, hto⟩ := hlaid.inside b hb
    have hroom := hlaid.room b hb
    obtain ⟨-, huser, -⟩ := b.user_bounds
    unfold MinorBlock.stop at hto
    omega

end Contents

section Relinking
variable {m m' : ByteMemory} {maj hi a : ℕ} {l₁ l₂ : List MinorBlock} {c b : MinorBlock}

/-- Where a step that puts the block `c` between these two parts of a list, or takes it out there, writes nothing. -/
structure Beside (maj : ℕ) (l₁ : List MinorBlock) (c : MinorBlock) (l₂ : List MinorBlock) (a : ℕ) : Prop where
  usage : a < maj + 24 ∨ maj + 28 ≤ a
  first : l₁ = [] → a < maj + 32 ∨ maj + 40 ≤ a
  block : a < c.adr ∨ c.stop ≤ a
  behind : ∀ b, l₁.getLast? = some b → a < b.adr + 8 ∨ b.adr + 16 ≤ a
  before : ∀ b, l₂.head? = some b → a < b.adr ∨ b.adr + 8 ≤ a

/-- What such a step leaves: `down` is put into the cells that name what follows the first part, `up` into those that
name what precedes the second. -/
structure Rejoined (m m' : ByteMemory) (maj : ℕ) (l₁ : List MinorBlock) (c : MinorBlock) (l₂ : List MinorBlock)
    (down up usage : ℕ) : Prop where
  behind : ∀ b, l₁.getLast? = some b → nextAt m' b.adr = down
  first : l₁ = [] → loadBytes m' (maj+32) 8 = down
  before : ∀ b, l₂.head? = some b → prevAt m' b.adr = up
  usage : loadBytes m' (maj+24) 4 = usage
  frame : ∀ a, Beside maj l₁ c l₂ a → m' a = m a

/-- What a block beside the place holds behind its links is not written. -/
lemma beside_of_mem (hlaid : Laid (maj+40) hi (l₁ ++ c :: l₂)) (hb : b ∈ l₁ ++ l₂) (hlow : b.adr + 16 ≤ a)
    (hhigh : a < b.stop) : Beside maj l₁ c l₂ a := by
  have hrest := hlaid.remove
  obtain ⟨hbefore, hbehind⟩ := hlaid.around
  have hfrom := (hrest.inside b hb).1
  refine ⟨by omega, fun _ => by omega, ?_, fun x hx => ?_, fun x hx => ?_⟩
  · rcases List.mem_append.mp hb with hb | hb
    · exact .inl (hhigh.trans_le (hbefore b hb))
    · exact .inr (by have := hbehind b hb; omega)
  · rcases hrest.separate hb (List.mem_append_left _ (List.mem_of_getLast? hx)) with rfl | hle | hle
    · exact .inr hlow
    · exact .inl (by omega)
    · exact .inr (by unfold MinorBlock.stop at hle; omega)
  · rcases hrest.separate hb (List.mem_append_right _ (List.mem_of_head? hx)) with rfl | hle | hle
    · exact .inr (by omega)
    · exact .inl (by omega)
    · exact .inr (by unfold MinorBlock.stop at hle; omega)

/-- What lies in front of the list, and is not one of the two fields that change. -/
lemma beside_header (hlaid : Laid (maj+40) hi (l₁ ++ c :: l₂)) (husage : a < maj + 24 ∨ maj + 28 ≤ a)
    (hfirst : l₁ = [] → a < maj + 32) (hhigh : a < maj + 40) : Beside maj l₁ c l₂ a := by
  have hrest := hlaid.remove
  have hc := hlaid.inside c (by simp)
  refine ⟨husage, fun h => .inl (hfirst h), .inl (by omega), fun b hb => .inl ?_, fun b hb => .inl ?_⟩
  · have := hrest.inside b (List.mem_append_left _ (List.mem_of_getLast? hb))
    omega
  · have := hrest.inside b (List.mem_append_right _ (List.mem_of_head? hb))
    omega

/-- What is no part of the major block. -/
lemma beside_outside (hlaid : Laid (maj+40) hi (l₁ ++ c :: l₂)) (h : a < maj + 16 ∨ hi ≤ a) :
    Beside maj l₁ c l₂ a := by
  have hrest := hlaid.remove
  have hc := hlaid.inside c (by simp)
  have hstop : c.adr + 40 ≤ c.stop := by
    unfold MinorBlock.stop
    omega
  refine ⟨by omega, fun _ => by omega, by omega, fun b hb => ?_, fun b hb => ?_⟩
  · have := hrest.inside b (List.mem_append_left _ (List.mem_of_getLast? hb))
    unfold MinorBlock.stop at this
    omega
  · have := hrest.inside b (List.mem_append_right _ (List.mem_of_head? hb))
    unfold MinorBlock.stop at this
    omega

section Fields
variable {down up usage : ℕ} (hr : Rejoined m m' maj l₁ c l₂ down up usage) (hlaid : Laid (maj+40) hi (l₁ ++ c :: l₂))
include hr hlaid

/-- A byte of a link that stays. -/
lemma Rejoined.cell_eq (hb : b ∈ l₁ ++ l₂) (hcell : b.adr ≤ a ∧ a < b.adr + 16)
    (hlast : l₁.getLast? = some b → a < b.adr + 8) (hhead : l₂.head? = some b → b.adr + 8 ≤ a) : m' a = m a := by
  have hrest := hlaid.remove
  obtain ⟨hbefore, hbehind⟩ := hlaid.around
  have hfrom := hrest.inside b hb
  have hsize : ∀ x : MinorBlock, x.stop = x.adr + 40 + x.size := fun _ => rfl
  have hbsize := hsize b
  refine hr.frame a ⟨by omega, fun _ => by omega, ?_, fun x hx => ?_, fun x hx => ?_⟩
  · rcases List.mem_append.mp hb with hb | hb
    · exact .inl (by have := hbefore b hb; omega)
    · exact .inr (by have := hbehind b hb; omega)
  · have hxsize := hsize x
    rcases hrest.separate hb (List.mem_append_left _ (List.mem_of_getLast? hx)) with rfl | hle | hle
    · exact .inl (hlast hx)
    · exact .inl (by omega)
    · exact .inr (by omega)
  · have hxsize := hsize x
    rcases hrest.separate hb (List.mem_append_right _ (List.mem_of_head? hx)) with rfl | hle | hle
    · exact .inr (hhead hx)
    · exact .inl (by omega)
    · exact .inr (by omega)

lemma Rejoined.next_eq (hb : b ∈ l₁ ++ l₂) (hlast : l₁.getLast? ≠ some b) : nextAt m' b.adr = nextAt m b.adr :=
  loadBytes_congr fun _ ha hlt => hr.cell_eq hlaid hb (by omega) (fun h => absurd h hlast) fun _ => ha

lemma Rejoined.prev_eq (hb : b ∈ l₁ ++ l₂) (hhead : l₂.head? ≠ some b) : prevAt m' b.adr = prevAt m b.adr :=
  loadBytes_congr fun _ ha hlt => hr.cell_eq hlaid hb (by omega) (fun _ => hlt) fun h => absurd h hhead

/-- The links that stay, in the form in which a list is joined anew. -/
lemma Rejoined.links_eq :
    (∀ x ∈ l₁.map MinorBlock.adr ++ l₂.map MinorBlock.adr, (l₁.map MinorBlock.adr).getLast? ≠ some x →
      nextAt m' x = nextAt m x) ∧
    (∀ x ∈ l₁.map MinorBlock.adr ++ l₂.map MinorBlock.adr, (l₂.map MinorBlock.adr).head? ≠ some x →
      prevAt m' x = prevAt m x) ∧
    (∀ x, (l₁.map MinorBlock.adr).getLast? = some x → nextAt m' x = down) ∧
    ∀ x, (l₂.map MinorBlock.adr).head? = some x → prevAt m' x = up := by
  rw [← List.map_append]
  refine ⟨fun x hx hlast => ?_, fun x hx hhead => ?_, fun x hx => ?_, fun x hx => ?_⟩
  · obtain ⟨b, hb, rfl⟩ := List.mem_map.mp hx
    refine hr.next_eq hlaid hb fun heq => hlast ?_
    rw [List.getLast?_map, heq]
    rfl
  · obtain ⟨b, hb, rfl⟩ := List.mem_map.mp hx
    refine hr.prev_eq hlaid hb fun heq => hhead ?_
    rw [List.head?_map, heq]
    rfl
  · rw [List.getLast?_map] at hx
    obtain ⟨b, hb, rfl⟩ := Option.map_eq_some_iff.mp hx
    exact hr.behind b hb
  · rw [List.head?_map] at hx
    obtain ⟨b, hb, rfl⟩ := Option.map_eq_some_iff.mp hx
    exact hr.before b hb

end Fields

end Relinking

section Lists
variable {m m' : ByteMemory} {M N : MajorBlock} {l₁ l₂ : List MinorBlock} {c : MinorBlock}

/-- The fields of the header that such a step keeps, and the other blocks. -/
lemma Rejoined.rest {down up usage : ℕ} (hr : Rejoined m m' M.adr l₁ c l₂ down up usage)
    (hlaid : Laid (M.adr+40) M.limit (l₁ ++ c :: l₂)) :
    loadBytes m' (M.adr+16) 4 = loadBytes m (M.adr+16) 4 ∧ loadBytes m' (M.adr+20) 4 = loadBytes m (M.adr+20) 4 ∧
      (l₁ ≠ [] → loadBytes m' (M.adr+32) 8 = loadBytes m (M.adr+32) 8) ∧
      ∀ b ∈ l₁ ++ l₂, b.Tagged m M.adr → b.Tagged m' M.adr := by
  refine ⟨loadBytes_congr fun a ha hlt => hr.frame a (beside_header hlaid (by omega) (fun _ => by omega) (by omega)),
    loadBytes_congr fun a ha hlt => hr.frame a (beside_header hlaid (by omega) (fun _ => by omega) (by omega)),
    fun hne => loadBytes_congr fun a ha hlt => hr.frame a
      (beside_header hlaid (by omega) (fun h => absurd h hne) (by omega)),
    fun b hb htag => htag.congr fun a ha hlt => hr.frame a (beside_of_mem hlaid hb ha ?_)⟩
  have hroom := hlaid.remove.room b hb
  obtain ⟨-, huser, -⟩ := b.user_bounds
  unfold MinorBlock.stop
  omega

/-- A minor block is put in. -/
theorem MajorBlock.Holds.insert (h : M.Holds m) (hM : M.minors = l₁ ++ l₂) (hadr : N.adr = M.adr)
    (hpages : N.pages = M.pages) (hN : N.minors = l₁ ++ c :: l₂)
    (hr : Rejoined m m' M.adr l₁ c l₂ c.adr c.adr (usageOf (l₁ ++ c :: l₂))) (htag : c.Tagged m' M.adr)
    (hprev : prevAt m' c.adr = (l₁.map MinorBlock.adr).getLastD 0)
    (hnext : nextAt m' c.adr = (l₂.map MinorBlock.adr).headD 0) : N.Holds m' := by
  have hlaid : Laid (M.adr+40) M.limit (l₁ ++ c :: l₂) := by
    have := N.laid
    rwa [hadr, hpages, hN] at this
  obtain ⟨hpagesKept, hsizeKept, hfirstKept, htagged⟩ := hr.rest hlaid
  obtain ⟨hn, hp, hlast, hhead⟩ := hr.links_eq hlaid
  have hlinks := h.links
  have hnodup := hlaid.remove.nodup
  rw [hM, List.map_append] at hlinks
  rw [List.map_append] at hnodup
  refine ⟨?_, ?_, ?_, ?_, ?_, fun b hb => ?_⟩
  · rw [hadr, hpages, hpagesKept, h.pages]
  · rw [hadr, hpages, hsizeKept, h.size]
  · rw [hadr, hN, hr.usage]
  · rw [hadr, hN]
    cases l₁ with
    | nil => exact hr.first rfl
    | cons b l₁ =>
      rw [hfirstKept (by simp), h.first, hM]
      rfl
  · rw [hN, List.map_append, List.map_cons]
    exact hlinks.insert hnodup hn hp hlast hhead hprev hnext
  · rw [hadr]
    rw [hN, List.mem_append, List.mem_cons] at hb
    rcases hb with hb | rfl | hb
    · exact htagged b (List.mem_append_left _ hb) (h.tagged b (hM ▸ List.mem_append_left _ hb))
    · exact htag
    · exact htagged b (List.mem_append_right _ hb) (h.tagged b (hM ▸ List.mem_append_right _ hb))

/-- A minor block is taken out. -/
theorem MajorBlock.Holds.remove (h : M.Holds m) (hM : M.minors = l₁ ++ c :: l₂) (hadr : N.adr = M.adr)
    (hpages : N.pages = M.pages) (hN : N.minors = l₁ ++ l₂)
    (hr : Rejoined m m' M.adr l₁ c l₂ ((l₂.map MinorBlock.adr).headD 0) ((l₁.map MinorBlock.adr).getLastD 0)
      (usageOf (l₁ ++ l₂))) : N.Holds m' := by
  have hlaid : Laid (M.adr+40) M.limit (l₁ ++ c :: l₂) := hM ▸ M.laid
  obtain ⟨hpagesKept, hsizeKept, hfirstKept, htagged⟩ := hr.rest hlaid
  obtain ⟨hn, hp, hlast, hhead⟩ := hr.links_eq hlaid
  have hlinks := h.links
  have hnodup := hlaid.remove.nodup
  rw [hM, List.map_append, List.map_cons] at hlinks
  rw [List.map_append] at hnodup
  refine ⟨?_, ?_, ?_, ?_, ?_, fun b hb => ?_⟩
  · rw [hadr, hpages, hpagesKept, h.pages]
  · rw [hadr, hpages, hsizeKept, h.size]
  · rw [hadr, hN, hr.usage]
  · rw [hadr, hN]
    cases l₁ with
    | nil => exact hr.first rfl
    | cons b l₁ =>
      rw [hfirstKept (by simp), h.first, hM]
      rfl
  · rw [hN, List.map_append]
    exact hlinks.remove hnodup hn hp hlast hhead
  · rw [hadr]
    rw [hN] at hb
    refine htagged b hb (h.tagged b ?_)
    rw [hM]
    simp only [List.mem_append, List.mem_cons] at hb ⊢
    tauto

end Lists

end Open98.Mm
