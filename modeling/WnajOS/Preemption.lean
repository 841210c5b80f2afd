import WnajOS.VideoMap
import WnajOS.Writing

/-!
# Preempted writers

The console position `screen_x`, `screen_y` is one pair for all terminals.  A writer sets it
from the cursor of its terminal and then calls `putc`, and the `sti` at the end of the `putc`
before lets a tick or the echo of a key come in between.  A tick away from a hidden terminal
does no harm, as `pit_handler` moves the console to the cursor when it comes back; a tick away
from the visible terminal and an echo leave the byte at another writer's position.

`Aimed` is the invariant of the runs in which no interrupt comes at such a moment.
-/

namespace WnajOS

namespace Display

/-! ### What a terminal shows -/

/-- The terminal `t` shows the same: its cursor and the rows of its screen. -/
structure SameScreen (t : ℕ) (d d' : Display) : Prop where
  cursor : (d'.terms t).cursor = (d.terms t).cursor
  rows : ∀ i < termRows * termCols * 2, d'.vram (d'.screenPage t) i = d.vram (d.screenPage t) i

/-- What is drawn for the byte `c` stands at the position `p` of the screen. -/
def Shows (t : ℕ) (p : Cursor) (c : UInt8) (d : Display) : Prop :=
  let i := (termCols * p.row + p.col) * 2
  d.vram (d.screenPage t) i = glyph c ∧ d.vram (d.screenPage t) (i + 1) = attrib

variable {t u : ℕ} {d d' d'' : Display}

lemma screenPage_ne (d : Display) (h : t ≠ u) : d.screenPage t ≠ d.screenPage u := by
  rw [screenPage, screenPage]
  split
  · split
    · rename_i ht hu
      exact absurd (ht.trans hu.symm) h
    · omega
  · split
    · omega
    · omega

namespace SameScreen

lemma refl (t : ℕ) (d : Display) : SameScreen t d d := ⟨rfl, fun _ _ => rfl⟩

lemma trans (h : SameScreen t d d') (h' : SameScreen t d' d'') : SameScreen t d d'' :=
  ⟨h'.cursor.trans h.cursor, fun i hi => (h'.rows i hi).trans (h.rows i hi)⟩

lemma shows {p : Cursor} {c : UInt8} (h : SameScreen t d d') (hp : p.InRange)
    (hd : Shows t p c d) : Shows t p c d' := by
  obtain ⟨hrow, hcol⟩ := hp
  obtain ⟨hfirst, hsecond⟩ := hd
  have hlt : (termCols * p.row + p.col) * 2 + 1 < termRows * termCols * 2 := by
    rw [termCols, termRows]
    omega
  exact ⟨(h.rows _ (by omega)).trans hfirst, (h.rows _ hlt).trans hsecond⟩

end SameScreen

/-- Output to one screen leaves the others as they are. -/
lemma OnScreen.sameScreen (h : OnScreen t d d') (hu : u ≠ t) : SameScreen u d d' := by
  refine ⟨by rw [h.terms u hu], fun i _ => ?_⟩
  rw [h.screenPage, h.pages _ (screenPage_ne d hu)]

lemma writePatch_same (t : ℕ) (d : Display) : SameScreen t d d.writePatch := by
  refine ⟨by rw [writePatch_terms], fun i _ => ?_⟩
  rw [screenPage, screenPage, writePatch_visibleTerm, writePatch_vram]

lemma Advanced.sameScreen (h : Advanced d d') (t : ℕ) : SameScreen t d d' := by
  refine ⟨by rw [h.terms], fun i _ => ?_⟩
  rw [screenPage, screenPage, h.visibleTerm, h.vram]

/-- The pages after a switch of the terminal: the screen that is hidden is saved, and the one
that is shown is copied. -/
lemma showTerm_vram (ht : VideoTables d.paging) (hv : d.visibleTerm < numTtys) (h3 : t < numTtys)
    (hne : t ≠ d.visibleTerm) {i : ℕ} (hi : i < termRows * termCols * 2) :
    (d.showTerm t).vram 0xB8 i = d.vram (termMem t) i ∧
    (d.showTerm t).vram (termMem d.visibleTerm) i = d.vram 0xB8 i ∧
    ∀ page, page ≠ 0xB8 → page ≠ termMem d.visibleTerm →
      (d.showTerm t).vram page = d.vram page := by
  have hshown : (d.paging.pageTable0 physVidmem).addr = 0xB8 := ht.fixed.2
  have hsaved : (d.paging.pageTable0 (termMem d.visibleTerm)).addr = termMem d.visibleTerm :=
    ht.back _ hv
  have hnew : (d.paging.pageTable0 (termMem t)).addr = termMem t := ht.back _ h3
  have hpages : termMem t ≠ 0xB8 ∧ termMem d.visibleTerm ≠ 0xB8 ∧
      termMem t ≠ termMem d.visibleTerm := by
    rw [termMem, termMem]
    omega
  obtain ⟨hnew8, hsaved8, hdiff⟩ := hpages
  refine ⟨?_, ?_, fun page h8 hpage => ?_⟩
  · simp only [showTerm, updateCursor, copyScreen, clearPhysScreen, frame, hshown, hsaved, hnew,
      Function.update_self, Function.update_of_ne hnew8, Function.update_of_ne hdiff, memcpy,
      if_pos hi]
  · simp only [showTerm, updateCursor, copyScreen, clearPhysScreen, frame, hshown, hsaved, hnew,
      Function.update_self, Function.update_of_ne hsaved8, memcpy, if_pos hi]
  · simp only [showTerm, updateCursor, copyScreen, clearPhysScreen, frame, hshown, hsaved, hnew,
      Function.update_of_ne h8, Function.update_of_ne hpage]

/-- A switch changes where the screens are, but not what the terminals show. -/
lemma showTerm_same (ht : VideoTables d.paging) (hv : d.visibleTerm < numTtys)
    (h3 : t < numTtys) (hne : t ≠ d.visibleTerm) (u : ℕ) : SameScreen u d (d.showTerm t) := by
  obtain ⟨-, hvisible, hterms, -⟩ := showTerm_fields t d
  refine ⟨by rw [hterms], fun i hi => ?_⟩
  obtain ⟨hshown, hsaved, hrest⟩ := showTerm_vram ht hv h3 hne hi
  rw [screenPage, screenPage, hvisible]
  by_cases hut : u = t
  · rw [if_pos hut, if_neg (hut ▸ hne), hut]
    exact hshown
  rw [if_neg hut]
  by_cases huv : u = d.visibleTerm
  · rw [if_pos huv, huv]
    exact hsaved
  · rw [if_neg huv, hrest]
    · omega
    · rw [termMem]
      omega

/-- The number in the status row is below every screen. -/
lemma drawStatus_same (t : ℕ) (d : Display) : SameScreen t d d.drawStatus := by
  refine ⟨rfl, fun i hi => ?_⟩
  have hstatus : i ≠ (24 * 80 + 9) * 2 := by
    rw [termRows, termCols] at hi
    omega
  have hpage : d.drawStatus.screenPage t = d.screenPage t := rfl
  rw [hpage, drawStatus]
  dsimp only
  by_cases hmem : d.screenPage t = d.frame physVidmem
  · rw [hmem, Function.update_self, Function.update_of_ne hstatus]
  · rw [Function.update_of_ne hmem]

lemma termSwitch_same (ht : VideoTables d.paging) (hv : d.visibleTerm < numTtys)
    (h3 : t < numTtys) (u : ℕ) : SameScreen u d (d.termSwitch t) := by
  rw [termSwitch]
  by_cases hne : t = d.visibleTerm
  · rw [if_pos hne]
    exact SameScreen.refl u d
  · rw [if_neg hne]
    exact (showTerm_same ht hv h3 hne u).trans (drawStatus_same u _)

/-- The cell of a byte just stored. -/
lemma drawGlyph_shows {p : Cursor} (c : UInt8) (hx : d.screenX = p.col) (hy : d.screenY = p.row)
    (hc : glyph c ≠ 10) : Shows t p c (d.drawGlyph (d.screenPage t) (glyph c)) := by
  rw [drawGlyph, if_neg hc, hx, hy, Shows]
  change writeCell (d.screenPage t) p (glyph c) d.vram (d.screenPage t) _ = _ ∧
    writeCell (d.screenPage t) p (glyph c) d.vram (d.screenPage t) _ = _
  rw [writeCell, Function.update_self, Function.update_self]
  exact ⟨by rw [Function.update_of_ne (by omega), Function.update_self], rfl⟩

end Display

/-! ### Conditions on a step -/

/-- The terminal on which the event moves the cursor back. -/
def OutEvent.back? (e : OutEvent) (m : Output) : Option ℕ :=
  match e, m.current with
  | .run, .writing _ .next (8 :: _) => some m.display.scheduledTerm
  | .echo 8, _ => some m.display.visibleTerm
  | _, _ => none

/-- No backspace comes at the first position of a screen. -/
def NoUnderflow (e : OutEvent) (m : Output) : Prop :=
  ∀ t ∈ e.back? m, (m.display.terms t).cursor ≠ ⟨0, 0⟩

instance (e : OutEvent) (m : Output) : Decidable (NoUnderflow e m) :=
  inferInstanceAs (Decidable (∀ t ∈ e.back? m, _))

/-- The writer has set the console position, or a part of it, and has yet to call `putc`. -/
def Phase.seeking : Phase → Bool
  | .setX _ _ => true
  | .setXY _ _ => true
  | _ => false

/-- The writer has read the cursor of its terminal, and has yet to move it on. -/
def Phase.holding : Phase → Bool
  | .next => false
  | .begun _ => false
  | _ => true

def Thread.seeking : Thread → Bool
  | .writing _ phase _ => phase.seeking
  | _ => false

def Thread.holding : Thread → Bool
  | .writing _ phase _ => phase.holding
  | _ => false

/-- No interrupt comes at a moment at which it moves the console or the cursor away from under a
writer: a tick while the writer of the visible terminal is seeking, an echo while the
scheduled writer is seeking or the one of the visible terminal is between reading its cursor
and moving it on, and a switch while the scheduled writer or that of the terminal shown is
seeking. -/
def WindowOk (e : OutEvent) (m : Output) : Prop :=
  match e with
  | .tick => m.display.scheduledTerm = m.display.visibleTerm → m.current.seeking = false
  | .echo _ => m.current.seeking = false ∧ (m.thread m.display.visibleTerm).holding = false
  | .switch t => t ≠ m.display.visibleTerm →
      m.current.seeking = false ∧ (m.thread t).seeking = false
  | _ => True

instance : (e : OutEvent) → (m : Output) → Decidable (WindowOk e m)
  | .tick, _ => inferInstanceAs (Decidable (_ → _))
  | .echo _, _ => inferInstanceAs (Decidable (_ ∧ _))
  | .switch _, _ => inferInstanceAs (Decidable (_ → _))
  | .number, _ => .isTrue trivial
  | .start, _ => .isTrue trivial
  | .write _, _ => .isTrue trivial
  | .store _ _, _ => .isTrue trivial
  | .run, _ => .isTrue trivial

/-! ### The invariant -/

/-- What a writer has read or drawn is still so: the variable `p` is the cursor of its terminal,
and the byte drawn there stands there.  A byte that `pan` moves is one of the screen. -/
def Phase.Aimed (t : ℕ) (d : Display) : Phase → Prop
  | .gotX _ x => x = (d.terms t).cursor.col
  | .gotXY _ p => p = (d.terms t).cursor
  | .setX _ p => p = (d.terms t).cursor
  | .setXY _ p => p = (d.terms t).cursor
  | .drawn c p => p = (d.terms t).cursor ∧ (Display.glyph c ≠ 10 → Display.Shows t p c d)
  | .move _ i => i < Display.scrollBytes
  | .blank _ i => i < Display.rowBytes
  | _ => True

/-- The console is where the writer has set it. -/
def Phase.Seeked (d : Display) : Phase → Prop
  | .setX _ p => d.screenX = p.col
  | .setXY _ p => d.screenX = p.col ∧ d.screenY = p.row
  | _ => True

def Thread.Aimed (t : ℕ) (d : Display) : Thread → Prop
  | .writing _ phase _ => phase.Aimed t d
  | _ => True

def Thread.Seeked (d : Display) : Thread → Prop
  | .writing _ phase _ => phase.Seeked d
  | _ => True

lemma Thread.aimed_of_not_holding {th : Thread} (h : th.holding = false) (t : ℕ) (d : Display) :
    th.Aimed t d := by
  cases th with
  | writing enabled phase rest =>
    cases phase with
    | next => trivial
    | begun c => trivial
    | _ => exact absurd h (by simp [Thread.holding, Phase.holding])
  | _ => trivial

lemma Thread.seeked_of_not_seeking {th : Thread} (h : th.seeking = false) (d : Display) :
    th.Seeked d := by
  cases th with
  | writing enabled phase rest =>
    cases phase with
    | setX c p => exact absurd h (by simp [Thread.seeking, Phase.seeking])
    | setXY c p => exact absurd h (by simp [Thread.seeking, Phase.seeking])
    | _ => trivial
  | _ => trivial

/-- A writer on a terminal that shows the same. -/
lemma Thread.Aimed.same {th : Thread} {t : ℕ} {d d' : Display} (h : th.Aimed t d)
    (hsame : Display.SameScreen t d d') (hcur : (d.terms t).cursor.InRange) : th.Aimed t d' := by
  cases th with
  | writing enabled phase rest =>
    cases phase with
    | gotX c x => exact h.trans (by rw [hsame.cursor])
    | gotXY c p => exact h.trans hsame.cursor.symm
    | setX c p => exact h.trans hsame.cursor.symm
    | setXY c p => exact h.trans hsame.cursor.symm
    | drawn c p =>
      obtain ⟨hp, hshows⟩ := h
      exact ⟨hp.trans hsame.cursor.symm, fun hc => hsame.shows (hp ▸ hcur) (hshows hc)⟩
    | _ => trivial
  | _ => trivial

/-- A writer of a hidden terminal after the tick that schedules it. -/
lemma Thread.Aimed.seeked {th : Thread} {t : ℕ} {d d' : Display} (h : th.Aimed t d)
    (hx : d'.screenX = (d.terms t).cursor.col) (hy : d'.screenY = (d.terms t).cursor.row) :
    th.Seeked d' := by
  cases th with
  | writing enabled phase rest =>
    cases phase with
    | setX c p => exact hx.trans (congrArg Cursor.col h).symm
    | setXY c p =>
      exact ⟨hx.trans (congrArg Cursor.col h).symm, hy.trans (congrArg Cursor.row h).symm⟩
    | _ => trivial
  | _ => trivial

/-- **The invariant.**  Every writer is aimed at the cursor of its terminal, the scheduled one
has the console there, and none was preempted on the visible terminal while seeking. -/
structure Aimed (m : Output) : Prop where
  follows : VideoFollows m
  fault : m.fault = false
  cursors : ∀ t, (m.display.terms t).cursor.InRange
  threads : ∀ t, (m.thread t).Aimed t m.display
  seeked : m.current.Seeked m.display
  hidden : ∀ t, t ≠ m.display.scheduledTerm → (m.thread t).seeking = true →
    t ≠ m.display.visibleTerm

/-! ### A step of a writer -/

/-- What a step of the writer of the terminal `t` leaves. -/
structure Phase.Ran (t : ℕ) (d d' : Display) (th : Thread) : Prop where
  screen : Display.OnScreen t d d'
  cursor : (d'.terms t).cursor.InRange
  thread : th.Aimed t d'
  seeked : th.Seeked d'

/-- `putc` of a writer that is aimed. -/
lemma Phase.putc_aimed {t : ℕ} {d : Display} {c : UInt8} {p : Cursor}
    (ht : Display.VideoTables d.paging)
    (hmap : (d.paging.pageTable0 0xB8).addr = d.screenPage t)
    (hcur : (d.terms t).cursor.InRange) (haimed : (Phase.setXY c p).Aimed t d)
    (hseeked : (Phase.setXY c p).Seeked d) : d.putc (Display.glyph c) attrib
      = .ok (d.drawGlyph (d.screenPage t) (Display.glyph c)) := by
  obtain ⟨hx, hy⟩ := hseeked
  obtain rfl : p = (d.terms t).cursor := haimed
  exact Display.putcAt_eq (n := 0xB8) ht.kernel hmap (hx ▸ hcur.2) (hy ▸ hcur.1.le) c

/-- A writer that is aimed makes its step. -/
lemma Phase.run_ran {t : ℕ} {d : Display} {phase : Phase} (enabled : Bool) (rest : List UInt8)
    (ht : Display.VideoTables d.paging) (h3 : t < numTtys)
    (hmap : (d.paging.pageTable0 0xB8).addr = d.screenPage t)
    (hcur : (d.terms t).cursor.InRange) (haimed : phase.Aimed t d) (hseeked : phase.Seeked d)
    (hpan : ∀ mem ∈ phase.panning?, mem = d.panMem t)
    (hback : phase = .next → rest.head? = some 8 → (d.terms t).cursor ≠ ⟨0, 0⟩) :
    ∃ d' th, phase.run t d enabled rest = .ok (d', th) ∧ Phase.Ran t d d' th := by
  cases phase with
  | next =>
    cases rest with
    | nil =>
      refine ⟨_, _, rfl, ?_, ?_, trivial, trivial⟩
      · split
        · exact Display.updateCursor_on t t d
        · exact Display.OnScreen.refl t d
      · split
        · exact hcur
        · exact hcur
    | cons c cs =>
      by_cases hc : c = 0
      · exact ⟨d, .writing enabled .next cs, by rw [Phase.run]; simp only [if_pos hc],
          Display.OnScreen.refl t d, hcur, trivial, trivial⟩
      · exact ⟨d.cursorBefore c t, .writing enabled (.begun c) cs,
          by rw [Phase.run]; simp only [if_neg hc], Display.cursorBefore_on c t d,
          Display.cursorBefore_inRange hcur fun h8 => hback rfl (by rw [h8]; rfl), trivial, trivial⟩
  | begun c => exact ⟨d, _, rfl, Display.OnScreen.refl t d, hcur, rfl, trivial⟩
  | gotX c x =>
    exact ⟨d, _, rfl, Display.OnScreen.refl t d, hcur, Cursor.ext rfl haimed, trivial⟩
  | gotXY c p =>
    exact ⟨_, _, rfl, ⟨rfl, rfl, rfl, fun _ _ => rfl, fun _ _ => rfl⟩, hcur, haimed, rfl⟩
  | setX c p =>
    exact ⟨_, _, rfl, ⟨rfl, rfl, rfl, fun _ _ => rfl, fun _ _ => rfl⟩, hcur, haimed, hseeked, rfl⟩
  | setXY c p =>
    -- the console is where the cursor of the terminal is, so the byte lands there
    have hput := Phase.putc_aimed ht hmap hcur haimed hseeked
    obtain ⟨hx, hy⟩ := hseeked
    obtain rfl : p = (d.terms t).cursor := haimed
    have hon := Display.drawGlyph_on (t := t) (d := d) rfl (Display.glyph c)
    have hterms := Display.drawGlyph_terms (d.screenPage t) (Display.glyph c) d
    refine ⟨d.drawGlyph (d.screenPage t) (Display.glyph c),
      .writing true (.drawn c (d.terms t).cursor) rest, by rw [Phase.run, hput]; rfl, hon, ?_,
      ⟨?_, fun hc => ?_⟩, trivial⟩
    · rw [hterms]
      exact hcur
    · rw [hterms]
    · have hshows := Display.drawGlyph_shows (t := t) c hx hy hc
      exact hshows
  | drawn c p =>
    by_cases h8 : c = 8
    · exact ⟨d.screenSeek p, .writing enabled .next rest, by rw [Phase.run, if_pos h8],
        Display.screenSeek_on t d p, hcur, trivial, trivial⟩
    · refine ⟨d.advance c t, .writing enabled
          (if ((d.advance c t).terms t).cursor = ⟨0, 0⟩ then .scroll else .next) rest,
        by rw [Phase.run, if_neg h8], Display.setCursor_on t d _, ?_, ?_, ?_⟩
      · rw [Display.advance, Display.setCursor_cursor]
        exact Display.nextCursor_inRange c _ hcur
      · rw [Thread.Aimed]
        split
        · trivial
        · trivial
      · rw [Thread.Seeked]
        split
        · trivial
        · trivial
  | scroll =>
    have hfirst : 0 < Display.scrollBytes := by decide
    exact ⟨d, _, rfl, Display.OnScreen.refl t d, hcur, hfirst, trivial⟩
  | move mem i =>
    obtain rfl := hpan mem rfl
    refine ⟨_, _, rfl, Display.setPage_on ht h3 _, hcur, ?_, ?_⟩
    · have hfirst : 0 < Display.rowBytes := by decide
      rw [Thread.Aimed]
      split
      · assumption
      · exact hfirst
    · rw [Thread.Seeked]
      split
      · trivial
      · trivial
  | blank mem i =>
    obtain rfl := hpan mem rfl
    refine ⟨_, _, rfl, Display.setPage_on ht h3 _, hcur, ?_, ?_⟩
    · rw [Thread.Aimed]
      split
      · assumption
      · trivial
    · rw [Thread.Seeked]
      split
      · trivial
      · trivial
  | home =>
    refine ⟨_, _, rfl, Display.home_on _ t d, ?_, trivial, trivial⟩
    rw [Display.home, Display.setCursor_cursor]
    exact ⟨Nat.lt_succ_self 23, Nat.zero_lt_succ _⟩

/-! ### Every step -/

namespace Aimed

variable {m m' : Output}

/-- The writer of the scheduled terminal makes its step. -/
lemma ran (h : Aimed m) {enabled : Bool} {phase : Phase} {rest : List UInt8}
    (hcur : m.current = .writing enabled phase rest) (hback : NoUnderflow .run m) :
    ∃ d th, phase.run m.display.scheduledTerm m.display enabled rest = .ok (d, th) ∧
      Phase.Ran m.display.scheduledTerm m.display d th ∧
      m.runWriter enabled phase rest
        = ⟨d, Function.update m.thread m.display.scheduledTerm th, false, m.switching⟩ := by
  have hpan := h.follows.panning m.display.scheduledTerm
  have haimed := h.threads m.display.scheduledTerm
  have hseeked := h.seeked
  rw [show m.thread m.display.scheduledTerm = .writing enabled phase rest from hcur] at haimed hpan
  rw [hcur] at hseeked
  have hfirst : phase = .next → rest.head? = some 8 →
      (m.display.terms m.display.scheduledTerm).cursor ≠ ⟨0, 0⟩ := by
    intro hphase hhead
    refine hback _ ?_
    cases rest with
    | nil => exact absurd hhead (by simp)
    | cons c cs =>
      obtain rfl := Option.some.inj hhead
      subst hphase
      simp only [OutEvent.back?, hcur]
      rfl
  obtain ⟨d, th, hrun, hran⟩ := Phase.run_ran enabled rest h.follows.tables h.follows.sched
    (h.follows.mapped (by rw [hcur]; simp)).1 (h.cursors _) haimed hseeked hpan hfirst
  refine ⟨d, th, hrun, hran, ?_⟩
  rw [Output.runWriter, hrun]
  simp only [Output.setCurrent, h.fault]

/-- Output of the scheduled terminal, after which its thread is `th`. -/
lemma onScreen (h : Aimed m) {d : Display} {th : Thread} {sw : Option ℕ}
    (hfollows : VideoFollows ⟨d, Function.update m.thread m.display.scheduledTerm th, false, sw⟩)
    (hran : Phase.Ran m.display.scheduledTerm m.display d th) :
    Aimed ⟨d, Function.update m.thread m.display.scheduledTerm th, false, sw⟩ := by
  refine ⟨hfollows, rfl, fun u => ?_, fun u => ?_, ?_, fun u hu hseeking => ?_⟩
  · by_cases hu : u = m.display.scheduledTerm
    · rw [hu]
      exact hran.cursor
    · rw [hran.screen.terms u hu]
      exact h.cursors u
  · by_cases hu : u = m.display.scheduledTerm
    · rw [hu]
      dsimp only
      rw [Function.update_self]
      exact hran.thread
    · dsimp only
      rw [Function.update_of_ne hu]
      exact (h.threads u).same (hran.screen.sameScreen hu) (h.cursors u)
  · rw [Output.current]
    dsimp only
    rw [hran.screen.scheduledTerm, Function.update_self]
    exact hran.seeked
  · dsimp only at hu hseeking ⊢
    rw [hran.screen.scheduledTerm] at hu
    rw [Function.update_of_ne hu] at hseeking
    rw [hran.screen.visibleTerm]
    exact h.hidden u hu hseeking

/-- A display that shows the same on every terminal, with other threads that are aimed. -/
lemma same (h : Aimed m) {d : Display} {f : ℕ → Thread} {sw : Option ℕ}
    (hfollows : VideoFollows ⟨d, f, false, sw⟩)
    (hsame : ∀ t, Display.SameScreen t m.display d)
    (hf : ∀ t, f t = m.thread t ∨ (f t).holding = false)
    (hseeked : (f d.scheduledTerm).Seeked d)
    (hhidden : ∀ t, t ≠ d.scheduledTerm → (f t).seeking = true → t ≠ d.visibleTerm) :
    Aimed ⟨d, f, false, sw⟩ := by
  refine ⟨hfollows, rfl, fun t => ?_, fun t => ?_, hseeked, hhidden⟩
  · rw [(hsame t).cursor]
    exact h.cursors t
  · rcases hf t with heq | hnot
    · dsimp only
      rw [heq]
      exact (h.threads t).same (hsame t) (h.cursors t)
    · exact Thread.aimed_of_not_holding hnot t d

/-- What an echo leaves. -/
lemma echoed (h : Aimed m) {c : UInt8} (hback : NoUnderflow (.echo c) m) :
    ∃ d, m.display.echo c = .ok d ∧
      Display.OnScreen m.display.visibleTerm m.display.writePatch d ∧
      (d.terms m.display.visibleTerm).cursor.InRange := by
  have hne : c = 8 → (m.display.terms m.display.visibleTerm).cursor ≠ ⟨0, 0⟩ := by
    rintro rfl
    exact hback _ rfl
  have hsame := Display.writePatch_same m.display.visibleTerm m.display
  have hvisible := Display.writePatch_visibleTerm m.display
  have hcur := h.cursors m.display.visibleTerm
  have hlt := h.follows.visible
  have htables := h.follows.tables.writePatch
  refine ⟨_, Display.echo_eq h.follows.tables hcur hne, ?_⟩
  -- the display after the patch, and the byte written there
  rw [← hsame.cursor] at hcur hne
  have hpage : 0xB8 = m.display.writePatch.screenPage m.display.visibleTerm := by
    rw [Display.screenPage, if_pos hvisible.symm]
  generalize m.display.writePatch = d at hcur hne htables hpage ⊢
  generalize m.display.visibleTerm = t at hcur hne hpage hlt ⊢
  by_cases hc : c = 0
  · rw [if_pos hc]
    exact ⟨Display.updateCursor_on t t d, hcur⟩
  · rw [if_neg hc]
    exact ⟨(Display.writtenChar_on htables hlt c hpage).trans (Display.updateCursor_on t t _),
      Display.writtenChar_inRange 0xB8 hcur hne⟩

/-- The patched display. -/
lemma writePatch (h : Aimed m)
    (hfollows : VideoFollows { m with display := m.display.writePatch }) :
    Aimed { m with display := m.display.writePatch } := by
  have hsame := fun t => Display.writePatch_same t m.display
  have hseeked := h.seeked
  have hhidden := h.hidden
  obtain ⟨table, heq, -⟩ := Display.writePatch_eq m.display
  rw [heq] at hfollows hsame ⊢
  rw [h.fault] at hfollows ⊢
  exact h.same hfollows hsame (fun t => Or.inl rfl) hseeked hhidden

lemma echo (h : Aimed m) {c : UInt8} (hwindow : WindowOk (.echo c) m)
    (hback : NoUnderflow (.echo c) m) (hfollows : VideoFollows (m.draw (m.display.echo c))) :
    Aimed (m.draw (m.display.echo c)) := by
  obtain ⟨hseeking, hholding⟩ := hwindow
  obtain ⟨d, heq, hon, hcur⟩ := h.echoed hback
  have hpatch := h.writePatch h.follows.patch
  have hvisible := Display.writePatch_visibleTerm m.display
  have hsched := Display.writePatch_scheduledTerm m.display
  rw [heq, Output.draw] at hfollows ⊢
  refine ⟨hfollows, h.fault, fun u => ?_, fun u => ?_, ?_, fun u hu hu' => ?_⟩
  · by_cases hu : u = m.display.visibleTerm
    · rw [hu]
      exact hcur
    · rw [hon.terms u hu]
      exact hpatch.cursors u
  · by_cases hu : u = m.display.visibleTerm
    · rw [hu]
      exact Thread.aimed_of_not_holding hholding _ d
    · exact (hpatch.threads u).same (hon.sameScreen hu) (hpatch.cursors u)
  · refine Thread.seeked_of_not_seeking ?_ d
    rw [Output.current]
    dsimp only
    rw [hon.scheduledTerm, hsched]
    exact hseeking
  · dsimp only at hu hu' ⊢
    rw [hon.scheduledTerm, hsched] at hu
    rw [hon.visibleTerm, hvisible]
    exact h.hidden u hu hu'

lemma tick (h : Aimed m) (hwindow : WindowOk .tick m) (hfollows : VideoFollows m.tick) :
    Aimed m.tick := by
  have hadv := Display.pitAdvance_advanced m.display
  have hsched := h.follows.sched
  have hnext : m.display.pitAdvance.scheduledTerm ≠ m.display.scheduledTerm := by
    rw [hadv.scheduledTerm]
    unfold numTtys at hsched ⊢
    omega
  have hticked : ∀ f : ℕ → Thread, VideoFollows ⟨m.display.pitAdvance, f, m.fault, m.switching⟩ →
      (∀ t, f t = m.thread t ∨ (f t).holding = false ∧ (f t).seeking = false) →
      Aimed ⟨m.display.pitAdvance, f, m.fault, m.switching⟩ := by
    intro f hfollows hf
    rw [h.fault] at hfollows ⊢
    refine h.same hfollows hadv.sameScreen (fun t => (hf t).imp_right And.left) ?_ ?_
    · -- the console of the terminal that is scheduled now
      rcases hf m.display.pitAdvance.scheduledTerm with heq | ⟨-, hnot⟩
      · rcases hadv.console with ⟨hv, -⟩ | ⟨-, hx, hy⟩
        · -- the visible terminal was not preempted while seeking
          refine Thread.seeked_of_not_seeking ?_ _
          rw [heq]
          by_contra hseeking
          exact h.hidden _ hnext (by simpa using hseeking) hv
        · rw [heq]
          exact (h.threads _).seeked hx hy
      · exact Thread.seeked_of_not_seeking hnot _
    · intro t ht hseeking
      rcases hf t with heq | ⟨-, hnot⟩
      · rw [heq] at hseeking
        rw [hadv.visibleTerm]
        by_cases hs : t = m.display.scheduledTerm
        · subst hs
          intro hv
          exact absurd (hwindow hv) (by rw [Output.current, hseeking]; simp)
        · exact h.hidden t hs hseeking
      · exact absurd hnot (by rw [hseeking]; simp)
  rw [Output.tick] at hfollows ⊢
  split at hfollows
  · refine hticked _ hfollows fun t => ?_
    dsimp only
    by_cases ht : t = m.display.pitAdvance.scheduledTerm
    · rw [ht, Function.update_self]
      exact Or.inr ⟨rfl, rfl⟩
    · exact Or.inl (Function.update_of_ne ht ..)
  · exact hticked _ hfollows fun t => Or.inl rfl

lemma switch (h : Aimed m) {t : ℕ} (ht : t < numTtys) (hwindow : WindowOk (.switch t) m)
    (hfollows : VideoFollows (m.switchTo t)) : Aimed (m.switchTo t) := by
  rw [Output.switchTo] at hfollows ⊢
  by_cases hne : t = m.display.visibleTerm
  · rw [if_pos hne]
    exact h
  rw [if_neg hne, h.fault] at hfollows ⊢
  obtain ⟨hseeking, hshown⟩ := hwindow hne
  have hsame := Display.showTerm_same h.follows.tables h.follows.visible ht hne
  obtain ⟨hsched, hvisible, -⟩ := Display.showTerm_fields t m.display
  refine h.same hfollows hsame (fun u => Or.inl rfl) ?_ fun u hu hu' => ?_
  · refine Thread.seeked_of_not_seeking ?_ _
    rw [hsched]
    exact hseeking
  · rw [hvisible]
    rintro rfl
    exact absurd hshown (by rw [hu']; simp)

/-- The number of the terminal that is shown. -/
lemma number (h : Aimed m)
    (hfollows : VideoFollows { m with display := m.display.drawStatus, switching := none }) :
    Aimed { m with display := m.display.drawStatus, switching := none } := by
  rw [h.fault] at hfollows ⊢
  exact h.same hfollows (fun t => Display.drawStatus_same t _) (fun t => Or.inl rfl) h.seeked
    h.hidden

/-- A step that leaves the display alone and the scheduled terminal with the thread `th`. -/
lemma setCurrent (h : Aimed m) {th : Thread} (hth : th.holding = false) (hth' : th.seeking = false)
    (hne : m.current ≠ .absent) : Aimed (m.setCurrent th) := by
  have hran : Phase.Ran m.display.scheduledTerm m.display m.display th :=
    ⟨Display.OnScreen.refl _ _, h.cursors _, Thread.aimed_of_not_holding hth _ _,
      Thread.seeked_of_not_seeking hth' _⟩
  rw [Output.setCurrent, h.fault]
  refine h.onScreen (h.follows.draw (Display.Drawn.refl _) (fun habs => absurd habs hne) ?_) hran
  refine h.follows.update_panning fun mem hmem => ?_
  cases th with
  | writing enabled phase rest =>
    cases phase with
    | move _ _ => exact absurd hth (by simp [Thread.holding, Phase.holding])
    | blank _ _ => exact absurd hth (by simp [Thread.holding, Phase.holding])
    | _ => exact absurd hmem (by simp [Thread.panning?, Phase.panning?])
  | _ => exact absurd hmem (by simp [Thread.panning?])

lemma store (h : Aimed m) (hcur : m.current = .user) (i : ℕ) (b : UInt8)
    (hfollows : VideoFollows (m.draw (m.display.userPoke i b))) :
    Aimed (m.draw (m.display.userPoke i b)) := by
  have hpage := (h.follows.mapped (by rw [hcur]; simp)).2
  have hself : Function.update m.thread m.display.scheduledTerm .user = m.thread :=
    (Function.update_eq_self_iff ..).2 hcur.symm
  rw [Display.userPoke] at hfollows ⊢
  rw [show videoMemAddr = 0xB8 from rfl, if_pos h.follows.tables.program, hpage, Output.draw,
    h.fault] at hfollows ⊢
  rw [← hself] at hfollows ⊢
  refine h.onScreen hfollows ⟨⟨rfl, rfl, rfl, fun _ _ => rfl, fun page hne => ?_⟩, h.cursors _,
    trivial, trivial⟩
  exact Function.update_of_ne hne ..

/-- **The invariant step.** -/
theorem step {e : OutEvent} (h : Aimed m) (hswitch : SwitchOk e m) (hwindow : WindowOk e m)
    (hback : NoUnderflow e m) (hs : m.step e = some m') : Aimed m' := by
  have hfollows := h.follows.step hswitch hs
  obtain ⟨-, heff⟩ := Output.step_effect hs
  cases heff with
  | tick hen => exact h.tick hwindow hfollows
  | echo hen => exact h.echo hwindow hback hfollows
  | switch hen hnone ht => exact h.switch ht hwindow hfollows
  | number hb => exact h.number hfollows
  | start hcur => exact h.setCurrent rfl rfl (by rw [hcur]; simp)
  | write hcur =>
    have hne : m.current ≠ .absent := by rw [hcur]; simp
    rw [h.follows.writePatch_eq hne]
    exact h.setCurrent rfl rfl hne
  | store hcur hi => exact h.store hcur _ _ hfollows
  | run hcur =>
    obtain ⟨d, th, -, hran, heq⟩ := h.ran hcur hback
    rw [heq] at hfollows ⊢
    exact h.onScreen hfollows hran

end Aimed

/-- At boot nobody writes. -/
lemma aimed_boot (l : Layout) (pg : Paging) (vram : ℕ → ℕ → UInt8) (mem : ℤ → Pcb) :
    Aimed (Output.boot l pg vram mem) :=
  ⟨follows_boot l pg vram mem, rfl, fun _ => ⟨Nat.zero_lt_succ _, Nat.zero_lt_succ _⟩,
    fun _ => trivial, trivial,
    fun _ _ hseeking => absurd hseeking (by simp [Output.boot, Thread.seeking])⟩

/-! ### What happens to the bytes -/

/-- A byte that is drawn as it is. -/
def Printable (c : UInt8) : Prop := c ≠ 0 ∧ c ≠ 8 ∧ c ≠ 9 ∧ c ≠ 10 ∧ c ≠ 13

namespace Printable

variable {c : UInt8}

lemma glyph (h : Printable c) : Display.glyph c = c := by
  obtain ⟨-, h8, h9, h10, h13⟩ := h
  rw [Display.glyph, if_neg h8, if_neg (by tauto), if_neg h9]

lemma ne_line (h : Printable c) : c ≠ 10 := h.2.2.2.1

end Printable

namespace Display

/-- The byte `c` is stored in the cell at the cursor of the terminal `t`, and nowhere else. -/
def Stored (t : ℕ) (c : UInt8) (d d' : Display) : Prop :=
  d'.vram = writeCell (d.screenPage t) (d.terms t).cursor c d.vram ∧ d'.terms = d.terms

/-- The rows of the terminal `t` are those of the page. -/
def Rows (t : ℕ) (page : ℕ → UInt8) (d : Display) : Prop :=
  ∀ i < termRows * termCols * 2, d.vram (d.screenPage t) i = page i

/-- The byte `c` is stored in the cell at the cursor, which moves on; beyond the last row the
screen moves up. -/
def Typed (t : ℕ) (c : UInt8) (d d' : Display) : Prop :=
  let vram := writeCell (d.screenPage t) (d.terms t).cursor c d.vram
  if nextCursor c (d.terms t).cursor = ⟨0, 0⟩ then
    d'.vram = Function.update vram (d.screenPage t) (panPage panRows (vram (d.screenPage t))) ∧
    (d'.terms t).cursor = ⟨termRows - panRows, 0⟩
  else d'.vram = vram ∧ (d'.terms t).cursor = nextCursor c (d.terms t).cursor

end Display

/-- A writer at the phase has `n` steps of `pan` to go, and of a screen that showed `page` it has
made `moved` so far. -/
inductive Phase.Pans (page : ℕ → UInt8) : Phase → ℕ → (ℕ → UInt8) → Prop
  | scroll : Pans page .scroll (Display.scrollBytes + Display.rowBytes + 2) page
  | move {mem i : ℕ} (h : i < Display.scrollBytes) :
      Pans page (.move mem i) (Display.scrollBytes - i + Display.rowBytes + 1)
        (Display.movedPage i page)
  | blank {mem i : ℕ} (h : i < Display.rowBytes) : Pans page (.blank mem i)
      (Display.rowBytes - i + 1)
        (Display.blankedPage i (Display.movedPage Display.scrollBytes page))
  | home : Pans page .home 1 (Display.panPage panRows page)

section Panning

variable {t : ℕ} {d : Display} {page moved : ℕ → UInt8}

/-- `memmove` moves the byte `i`. -/
lemma Display.Rows.moveByte (ht : Display.VideoTables d.paging) (h3 : t < numTtys) {i : ℕ}
    (hi : i < Display.scrollBytes) (h : d.Rows t (Display.movedPage i page)) :
    (d.moveByte (d.panMem t) i).Rows t (Display.movedPage (i + 1) page) := by
  intro j hj
  have hmem : d.frame (d.panMem t) = d.screenPage t := Display.pan_frame ht h3
  have hpage : (d.moveByte (d.panMem t) i).screenPage t = d.screenPage t := rfl
  rw [hpage, Display.movedPage_succ, Display.moveByte]
  dsimp only
  rw [hmem, Function.update_self]
  by_cases hji : j = i
  · rw [hji, Function.update_self, Function.update_self]
    refine h _ ?_
    rw [show Display.scrollBytes = 3680 from rfl] at hi
    rw [show panRows * Display.rowBytes = 160 from rfl,
      show termRows * termCols * 2 = 3840 from rfl]
    omega
  · rw [Function.update_of_ne hji, Function.update_of_ne hji]
    exact h j hj

/-- `memcpy` blanks the byte `i` of the last row. -/
lemma Display.Rows.blankByte (ht : Display.VideoTables d.paging) (h3 : t < numTtys) {i : ℕ}
    (h : d.Rows t (Display.blankedPage i page)) :
    (d.blankByte (d.panMem t) i).Rows t (Display.blankedPage (i + 1) page) := by
  intro j hj
  have hmem : d.frame (d.panMem t) = d.screenPage t := Display.pan_frame ht h3
  have hpage : (d.blankByte (d.panMem t) i).screenPage t = d.screenPage t := rfl
  rw [hpage, Display.blankedPage_succ, Display.blankByte]
  dsimp only
  rw [hmem, Function.update_self]
  by_cases hji : j = (termRows - 1) * Display.rowBytes + i
  · rw [hji, Function.update_self, Function.update_self]
  · rw [Function.update_of_ne hji, Function.update_of_ne hji]
    exact h j hj

/-- A step of `pan`. -/
lemma Phase.Pans.run {phase : Phase} {n : ℕ} (h : phase.Pans page (n + 1) moved)
    (ht : Display.VideoTables d.paging) (h3 : t < numTtys)
    (hpan : ∀ mem ∈ phase.panning?, mem = d.panMem t) (hrows : d.Rows t moved)
    (enabled : Bool) (rest : List UInt8) :
    ∃ d' phase', phase.run t d enabled rest = .ok (d', .writing enabled phase' rest) ∧
      ((n = 0 ∧ phase' = .next ∧ d'.Rows t (Display.panPage panRows page) ∧
          (d'.terms t).cursor = ⟨termRows - panRows, 0⟩) ∨
        ∃ moved', phase'.Pans page n moved' ∧ d'.Rows t moved') := by
  generalize hk : n + 1 = k at h
  cases h with
  | scroll =>
    obtain rfl : n = Display.scrollBytes - 0 + Display.rowBytes + 1 := by omega
    exact ⟨d, .move (d.panMem t) 0, rfl,
      Or.inr ⟨Display.movedPage 0 page, .move (by decide), hrows⟩⟩
  | @move mem i hi =>
    obtain rfl := hpan mem rfl
    have hnext := hrows.moveByte ht h3 hi
    by_cases hend : i + 1 < Display.scrollBytes
    · obtain rfl : n = Display.scrollBytes - (i + 1) + Display.rowBytes + 1 := by omega
      exact ⟨_, .move (d.panMem t) (i + 1), by rw [Phase.run, if_pos hend],
        Or.inr ⟨_, .move hend, hnext⟩⟩
    · obtain rfl : n = Display.rowBytes - 0 + 1 := by omega
      obtain hall : i + 1 = Display.scrollBytes := by omega
      rw [hall] at hnext
      refine ⟨_, .blank (d.panMem t) 0, by rw [Phase.run, if_neg hend],
        Or.inr ⟨_, .blank (by decide), ?_⟩⟩
      rw [Display.blankedPage_zero]
      exact hnext
  | @blank mem i hi =>
    obtain rfl := hpan mem rfl
    have hnext := hrows.blankByte ht h3
    by_cases hend : i + 1 < Display.rowBytes
    · obtain rfl : n = Display.rowBytes - (i + 1) + 1 := by omega
      exact ⟨_, .blank (d.panMem t) (i + 1), by rw [Phase.run, if_pos hend],
        Or.inr ⟨_, .blank hend, hnext⟩⟩
    · obtain rfl : n = 1 := by omega
      obtain hall : i + 1 = Display.rowBytes := by omega
      rw [hall, Display.blankedPage_movedPage] at hnext
      exact ⟨_, .home, by rw [Phase.run, if_neg hend], Or.inr ⟨_, .home, hnext⟩⟩
  | home =>
    obtain rfl : n = 0 := by omega
    refine ⟨d.home panRows t, .next, rfl, Or.inl ⟨rfl, rfl, hrows, ?_⟩⟩
    rw [Display.home, Display.setCursor_cursor]

end Panning

/-- The byte that a writer has taken and not drawn yet. -/
def Phase.pending : Phase → Option UInt8
  | .begun c => some c
  | .gotX c _ => some c
  | .gotXY c _ => some c
  | .setX c _ => some c
  | .setXY c _ => some c
  | _ => none

/-- The writer of the scheduled terminal stands at the phase, with the bytes `rest` left. -/
def Output.Stands (m : Output) (phase : Phase) (rest : List UInt8) : Prop :=
  ∃ enabled, m.current = .writing enabled phase rest

/-- The writer of the terminal `t` has `n` steps of `pan` to go, and its screen showed `page`. -/
def Output.Pans (m : Output) (t : ℕ) (page : ℕ → UInt8) (n : ℕ) : Prop :=
  ∃ enabled phase rest moved, m.thread t = .writing enabled phase rest ∧
    phase.Pans page n moved ∧ m.display.Rows t moved

lemma Output.Pans.same {m m' : Output} {t : ℕ} {page : ℕ → UInt8} {n : ℕ} (h : m.Pans t page n)
    (hthread : m'.thread t = m.thread t) (hsame : Display.SameScreen t m.display m'.display) :
    m'.Pans t page n := by
  obtain ⟨enabled, phase, rest, moved, hth, hphase, hrows⟩ := h
  exact ⟨enabled, phase, rest, moved, hthread.trans hth, hphase,
    fun i hi => (hsame.rows i hi).trans (hrows i hi)⟩

/-- A writer whose screen is being moved holds the cursor. -/
lemma Output.Pans.holding {m : Output} {t : ℕ} {page : ℕ → UInt8} {n : ℕ} (h : m.Pans t page n) :
    (m.thread t).holding = true := by
  obtain ⟨enabled, phase, rest, moved, hth, hphase, -⟩ := h
  rw [hth]
  cases hphase with
  | _ => rfl

/-- `pan` of the terminal `t` is done: its screen has moved up by a row, and the cursor stands at
the start of the last one. -/
def Output.Panned (m : Output) (t : ℕ) (page : ℕ → UInt8) : Prop :=
  m.display.Rows t (Display.panPage panRows page) ∧
    (m.display.terms t).cursor = ⟨termRows - panRows, 0⟩ ∧
    ∃ enabled rest, m.thread t = .writing enabled .next rest

/-- The terminal whose screen the event is about. -/
def OutEvent.target (e : OutEvent) (m : Output) : Option ℕ :=
  match e with
  | .run => some m.display.scheduledTerm
  | .store _ _ => some m.display.scheduledTerm
  | .echo _ => some m.display.visibleTerm
  | _ => none

/-- What a step does with the bytes that are written. -/
structure OutputKept (e : OutEvent) (m m' : Output) : Prop where
  fault : m'.fault = false
  /-- a writer that does not run has its bytes still -/
  waiting : ∀ t enabled phase rest, m.thread t = .writing enabled phase rest →
    (e = .run → t ≠ m.display.scheduledTerm) → m'.thread t = .writing enabled phase rest
  /-- the next byte is taken -/
  taken : ∀ c rest, e = .run → m.Stands .next (c :: rest) → Printable c → m'.Stands (.begun c) rest
  /-- a byte that was taken comes to be drawn -/
  pending : ∀ phase c rest, e = .run → m.Stands phase rest → phase.pending = some c →
    ∃ phase', m'.Stands phase' rest ∧
      (phase'.pending = some c ∨ ∃ p, phase' = .drawn c p)
  /-- a byte is stored at the cursor of its terminal -/
  stored : ∀ c p rest, e = .run → m.Stands (.setXY c p) rest → Printable c →
    Display.Stored m.display.scheduledTerm c m.display m'.display ∧ m'.Stands (.drawn c p) rest
  /-- the cursor advances past the byte that stands there -/
  moved : ∀ c p rest, e = .run → m.Stands (.drawn c p) rest → Printable c →
    let cursor := (m.display.terms m.display.scheduledTerm).cursor
    m.display.Shows m.display.scheduledTerm cursor c ∧
    (m'.display.terms m.display.scheduledTerm).cursor = Display.nextCursor c cursor ∧
    m'.Stands (if Display.nextCursor c cursor = ⟨0, 0⟩ then .scroll else .next) rest
  /-- beyond the last row the screen moves up: every step of its writer brings `pan` nearer its
  end, and no other step touches the rows -/
  scrolling : ∀ t page n, m.Pans t page (n + 1) →
    if e = .run ∧ t = m.display.scheduledTerm then
      (n = 0 ∧ m'.Panned t page) ∨ m'.Pans t page n
    else m'.Pans t page (n + 1)
  echoed : ∀ c, e = .echo c → Printable c →
    Display.Typed m.display.visibleTerm c m.display m'.display
  others : ∀ t, e.target m ≠ some t → Display.SameScreen t m.display m'.display

lemma Output.Stands.eq {m : Output} {enabled : Bool} {phase phase' : Phase}
    {rest rest' : List UInt8} (h : m.Stands phase' rest')
    (hcur : m.current = .writing enabled phase rest) : phase = phase' ∧ rest = rest' := by
  obtain ⟨enabled', h'⟩ := h
  rw [hcur] at h'
  injection h' with _ hphase hrest
  exact ⟨hphase, hrest⟩

namespace Aimed

variable {m m' : Output}

/-- A step of a writer keeps the bytes. -/
lemma run_kept (h : Aimed m) {enabled : Bool} {phase : Phase} {rest : List UInt8}
    (hcur : m.current = .writing enabled phase rest) (hback : NoUnderflow .run m) :
    OutputKept .run m (m.runWriter enabled phase rest) := by
  obtain ⟨d, th, hrun, hran, heq⟩ := h.ran hcur hback
  rw [heq]
  have hstands : ∀ enabled' phase' rest', th = .writing enabled' phase' rest' →
      Output.Stands ⟨d, Function.update m.thread m.display.scheduledTerm th, false, m.switching⟩
        phase' rest' := by
    rintro enabled' phase' rest' rfl
    refine ⟨enabled', ?_⟩
    rw [Output.current]
    dsimp only
    rw [hran.screen.scheduledTerm, Function.update_self]
  have haimed := h.threads m.display.scheduledTerm
  have hseeked := h.seeked
  rw [show m.thread m.display.scheduledTerm = .writing enabled phase rest from hcur] at haimed
  rw [hcur] at hseeked
  -- `putc` of this writer
  have hput : ∀ c p, phase = .setXY c p →
      d = m.display.drawGlyph (m.display.screenPage m.display.scheduledTerm) (Display.glyph c) ∧
        th = .writing true (.drawn c p) rest := by
    rintro c p rfl
    rw [Phase.run, Phase.putc_aimed h.follows.tables (h.follows.mapped (by rw [hcur]; simp)).1
      (h.cursors _) haimed hseeked] at hrun
    obtain ⟨hd, hth⟩ := Prod.mk.inj (Except.ok.inj hrun)
    exact ⟨hd.symm, hth.symm⟩
  refine ⟨rfl, fun t enabled' phase' rest' ht hne => ?_, fun c rest' _ hst hc => ?_,
    fun phase' c rest' _ hst hc => ?_, fun c p rest' _ hst hc => ?_, fun c p rest' _ hst hc => ?_,
    fun t page n hpans => ?_, fun c he => absurd he (by simp), fun t ht => ?_⟩
  · exact (Function.update_of_ne (hne rfl) ..).trans ht
  · obtain ⟨rfl, rfl⟩ := hst.eq hcur
    simp only [Phase.run, if_neg hc.1] at hrun
    obtain ⟨-, hth⟩ := Prod.mk.inj (Except.ok.inj hrun)
    exact hstands _ _ _ hth.symm
  · obtain ⟨rfl, rfl⟩ := hst.eq hcur
    cases phase with
    | setXY c' p =>
      obtain rfl := Option.some.inj hc
      exact ⟨_, hstands _ _ _ (hput _ p rfl).2, Or.inr ⟨p, rfl⟩⟩
    | next => exact absurd hc (by simp [Phase.pending])
    | drawn c' p => exact absurd hc (by simp [Phase.pending])
    | scroll => exact absurd hc (by simp [Phase.pending])
    | move mem i => exact absurd hc (by simp [Phase.pending])
    | blank mem i => exact absurd hc (by simp [Phase.pending])
    | home => exact absurd hc (by simp [Phase.pending])
    | _ =>
      obtain ⟨-, hth⟩ := Prod.mk.inj (Except.ok.inj hrun)
      exact ⟨_, hstands _ _ _ hth.symm, Or.inl hc⟩
  · obtain ⟨rfl, rfl⟩ := hst.eq hcur
    obtain ⟨hd, hth⟩ := hput c p rfl
    obtain ⟨hx, hy⟩ := hseeked
    obtain rfl : p = (m.display.terms m.display.scheduledTerm).cursor := haimed
    refine ⟨⟨?_, ?_⟩, hstands _ _ _ hth⟩
    · dsimp only
      rw [hd, hc.glyph, Display.drawGlyph, if_neg hc.ne_line, hx, hy]
    · dsimp only
      rw [hd, Display.drawGlyph_terms]
  · obtain ⟨rfl, rfl⟩ := hst.eq hcur
    obtain ⟨rfl, hshows⟩ := haimed
    have h8 : c ≠ 8 := hc.2.1
    rw [Phase.run, if_neg h8] at hrun
    obtain ⟨hd, hth⟩ := Prod.mk.inj (Except.ok.inj hrun)
    have hnew : ((m.display.advance c m.display.scheduledTerm).terms m.display.scheduledTerm).cursor
        = Display.nextCursor c (m.display.terms m.display.scheduledTerm).cursor := by
      rw [Display.advance, Display.setCursor_cursor]
    rw [hnew] at hth
    refine ⟨hshows (by rw [hc.glyph]; exact hc.ne_line), ?_, hstands _ _ _ hth.symm⟩
    dsimp only
    rw [← hd, hnew]
  · by_cases hs : t = m.display.scheduledTerm
    · obtain ⟨enabled', phase', rest', moved, hthread, hphase, hrows⟩ := hpans
      have hpan := h.follows.panning t
      rw [hthread] at hpan
      have hsame : Thread.writing enabled' phase' rest' = .writing enabled phase rest := by
        rw [← hthread, hs]
        exact hcur
      obtain ⟨rfl, rfl, rfl⟩ := Thread.writing.inj hsame
      obtain ⟨d', after, hrun', hcases⟩ := hphase.run h.follows.tables (hs ▸ h.follows.sched) hpan
        hrows enabled' rest'
      subst hs
      rw [hrun] at hrun'
      obtain ⟨rfl, rfl⟩ := Prod.mk.inj (Except.ok.inj hrun')
      rw [if_pos ⟨rfl, rfl⟩]
      rcases hcases with ⟨hn, rfl, hpage, hcursor⟩ | ⟨moved', hpans', hrows'⟩
      · exact Or.inl ⟨hn, hpage, hcursor, enabled', rest', Function.update_self ..⟩
      · exact Or.inr ⟨enabled', after, rest', moved', Function.update_self .., hpans', hrows'⟩
    · rw [if_neg fun hboth => hs hboth.2]
      exact hpans.same (Function.update_of_ne hs ..) (hran.screen.sameScreen hs)
  · exact hran.screen.sameScreen fun heq => ht (by rw [heq]; rfl)

/-- The echo of a printable byte types it. -/
lemma echo_typed (h : Aimed m) {c : UInt8} (hc : Printable c) :
    Display.Typed m.display.visibleTerm c m.display (m.draw (m.display.echo c)).display := by
  have h8 : c ≠ 8 := hc.2.1
  have hcur := h.cursors m.display.visibleTerm
  rw [Display.echo_eq h.follows.tables hcur fun heq => absurd heq h8, if_neg hc.1, Output.draw]
  have htables := h.follows.tables.writePatch
  have hlt := h.follows.visible
  have hpage : m.display.screenPage m.display.visibleTerm = 0xB8 := if_pos rfl
  rw [Display.Typed, hpage, ← Display.writePatch_terms m.display,
    ← Display.writePatch_vram m.display]
  have hpage' : m.display.writePatch.screenPage m.display.visibleTerm = 0xB8 :=
    if_pos (Display.writePatch_visibleTerm _).symm
  generalize m.display.writePatch = d at htables hpage' ⊢
  generalize m.display.visibleTerm = t at hlt hpage' ⊢
  have hstore := Display.writtenChar_vram htables hlt (by rw [hc.glyph]; exact hc.ne_line)
    hpage'.symm
  have hmove := Display.writtenChar_cursor hc.1 0xB8 t d
  have hbefore : d.cursorBefore c t = d := if_neg h8
  rw [hbefore, hc.glyph] at hstore
  rw [Cursor.step, if_neg hc.1, if_neg h8] at hmove
  dsimp only at hstore ⊢
  split
  · rename_i hend
    rw [if_pos ⟨h8, hend⟩] at hstore
    rw [if_pos hend] at hmove
    exact ⟨hstore, hmove⟩
  · rename_i hend
    rw [if_neg fun hboth => hend hboth.2] at hstore
    rw [if_neg hend] at hmove
    exact ⟨hstore, hmove⟩

/-- A step other than that of a writer keeps the bytes. -/
lemma kept_of_ne_run (h' : Aimed m') {e : OutEvent} (he : e ≠ .run)
    (hwaiting : ∀ t enabled phase rest, m.thread t = .writing enabled phase rest →
      m'.thread t = .writing enabled phase rest)
    (hechoed : ∀ c, e = .echo c → Printable c →
      Display.Typed m.display.visibleTerm c m.display m'.display)
    (hfree : ∀ t, e.target m = some t → (m.thread t).holding = false)
    (hothers : ∀ t, e.target m ≠ some t → Display.SameScreen t m.display m'.display) :
    OutputKept e m m' := by
  refine ⟨h'.fault, fun t enabled phase rest ht _ => hwaiting t enabled phase rest ht,
    fun _ _ hrun => absurd hrun he, fun _ _ _ hrun => absurd hrun he,
    fun _ _ _ hrun => absurd hrun he, fun _ _ _ hrun => absurd hrun he,
    fun t page n hpans => ?_, hechoed, hothers⟩
  rw [if_neg fun hboth => he hboth.1]
  have hsame : Display.SameScreen t m.display m'.display := by
    refine hothers t fun htarget => ?_
    exact absurd (hfree t htarget) (by rw [hpans.holding]; simp)
  refine hpans.same ?_ hsame
  obtain ⟨enabled, phase, rest, -, hth, -, -⟩ := hpans
  exact (hwaiting t enabled phase rest hth).trans hth.symm

/-- **Every step keeps the bytes.** -/
theorem kept {e : OutEvent} (h : Aimed m) (hswitch : SwitchOk e m) (hwindow : WindowOk e m)
    (hback : NoUnderflow e m) (hs : m.step e = some m') : OutputKept e m m' := by
  have h' := h.step hswitch hwindow hback hs
  -- a thread that is replaced is not a writer
  have hset : ∀ {th th' : Thread}, m.current = th → (∀ enabled phase rest,
      th ≠ .writing enabled phase rest) → ∀ t enabled phase rest,
      m.thread t = .writing enabled phase rest →
      Function.update m.thread m.display.scheduledTerm th' t = .writing enabled phase rest := by
    rintro th th' rfl hnot t enabled phase rest ht
    by_cases hs : t = m.display.scheduledTerm
    · subst hs
      exact absurd ht (hnot enabled phase rest)
    · rw [Function.update_of_ne hs]
      exact ht
  -- an event that is about no screen
  have hnone : ∀ t, none = some t → (m.thread t).holding = false :=
    fun t ht => absurd ht (by simp)
  obtain ⟨-, heff⟩ := Output.step_effect hs
  cases heff with
  | tick hen =>
    have hadv := Display.pitAdvance_advanced m.display
    rw [Output.tick] at h' ⊢
    split
    · rename_i habs
      rw [habs] at h'
      refine kept_of_ne_run h' (by simp) ?_ (fun c he => absurd he (by simp)) hnone
        fun t _ => hadv.sameScreen t
      intro t enabled phase rest ht
      have hne : t ≠ m.display.pitAdvance.scheduledTerm := by
        rintro rfl
        rw [Output.current] at habs
        exact absurd (ht.symm.trans habs) (by simp)
      exact (Function.update_of_ne hne ..).trans ht
    · rename_i hpresent
      split at h'
      · exact absurd ‹_› hpresent
      · exact kept_of_ne_run h' (by simp) (fun t enabled phase rest ht => ht)
          (fun c he => absurd he (by simp)) hnone fun t _ => hadv.sameScreen t
  | @echo c hen =>
    obtain ⟨d, heq, hon, -⟩ := h.echoed hback
    have htyped := h.echo_typed (c := c)
    rw [heq, Output.draw] at h' htyped ⊢
    refine kept_of_ne_run h' (by simp) (fun t enabled phase rest ht => ht) ?_ (fun t ht => ?_)
      fun t ht => ?_
    · intro c' he hc
      obtain rfl : c = c' := by injection he
      exact htyped hc
    · obtain rfl := Option.some.inj ht
      exact hwindow.2
    · have hne : t ≠ m.display.visibleTerm := fun hv => ht (by rw [hv]; rfl)
      exact (Display.writePatch_same t m.display).trans (hon.sameScreen hne)
  | @switch t hen _ ht =>
    rw [Output.switchTo] at h' ⊢
    by_cases hne : t = m.display.visibleTerm
    · rw [if_pos hne] at h' ⊢
      exact kept_of_ne_run h' (by simp) (fun t enabled phase rest ht => ht)
        (fun c he => absurd he (by simp)) hnone fun u _ => Display.SameScreen.refl u _
    · rw [if_neg hne] at h' ⊢
      exact kept_of_ne_run h' (by simp) (fun t enabled phase rest ht => ht)
        (fun c he => absurd he (by simp)) hnone
        fun u _ => Display.showTerm_same h.follows.tables h.follows.visible ht hne u
  | number hb =>
    exact kept_of_ne_run h' (by simp) (fun t enabled phase rest ht => ht)
      (fun c he => absurd he (by simp)) hnone fun u _ => Display.drawStatus_same u _
  | start hcur =>
    exact kept_of_ne_run h' (by simp) (hset hcur (by simp)) (fun c he => absurd he (by simp))
      hnone fun t _ => Display.SameScreen.refl t _
  | write hcur =>
    exact kept_of_ne_run h' (by simp) (hset hcur (by simp)) (fun c he => absurd he (by simp))
      hnone fun t _ => Display.writePatch_same t _
  | @store i b hcur hi =>
    have hpage := (h.follows.mapped (by rw [hcur]; simp)).2
    rw [Display.userPoke] at h' ⊢
    rw [show videoMemAddr = 0xB8 from rfl, if_pos h.follows.tables.program, hpage,
      Output.draw] at h' ⊢
    refine kept_of_ne_run h' (by simp) (fun t enabled phase rest ht => ht)
      (fun c he => absurd he (by simp)) (fun t ht => ?_) fun t ht => ?_
    · obtain rfl := Option.some.inj ht
      rw [show m.thread m.display.scheduledTerm = .user from hcur]
      rfl
    have hne : t ≠ m.display.scheduledTerm := fun heq => ht (by rw [heq]; rfl)
    refine ⟨rfl, fun i _ => ?_⟩
    exact congrFun (Function.update_of_ne (Display.screenPage_ne m.display hne) ..) i
  | run hcur => exact h.run_kept hcur hback

end Aimed

/-- **Output is safe from preemption** in every run from boot in which no interrupt comes while
it moves the console or the cursor away from under a writer, no switch concerns the terminal
whose process runs or one whose screen is being moved, and no backspace comes at the first position
of a screen: every writer can go on, once a keyboard handler that has interrupted it is done, and
every step keeps the bytes. -/
theorem output_kept (l : Layout) (pg : Paging) (vram : ℕ → ℕ → UInt8) (mem : ℤ → Pcb)
    (m : Output)
    (h : Runs.Reach Output.step (fun e m => SwitchOk e m ∧ WindowOk e m ∧ NoUnderflow e m)
      (Output.boot l pg vram mem) m) :
    (∀ phase rest, m.Stands phase rest →
      ∃ m', m.step (if m.Busy then .number else .run) = some m') ∧
    ∀ e m', SwitchOk e m → WindowOk e m → NoUnderflow e m → m.step e = some m' →
      OutputKept e m m' := by
  have haimed : Aimed m := by
    refine h.invariant (aimed_boot l pg vram mem) ?_
    exact fun e m₁ m₂ hm hok hs => hm.step hok.1 hok.2.1 hok.2.2 hs
  refine ⟨?_, fun e m' hswitch hwindow hback hs => haimed.kept hswitch hwindow hback hs⟩
  rintro phase rest ⟨enabled, hcur⟩
  by_cases hb : m.Busy
  · rw [if_pos hb]
    exact ⟨_, Output.step_number haimed.fault hb⟩
  · rw [if_neg hb]
    exact ⟨_, Output.step_run haimed.fault hb hcur⟩

/-- The program writes two bytes and comes to the `putc` of the second one. -/
def sampleWriting : List OutEvent := .write [65, 66] :: List.replicate 12 .run

/-- The shells of the first two terminals run.  The second one is preempted while it writes; a
key is echoed on the first terminal before it runs again. -/
def hiddenPreempted : List OutEvent :=
  ([.tick, .start, .tick, .start] : List OutEvent) ++ sampleWriting
    ++ ([.tick, .start, .tick, .echo 67, .tick] : List OutEvent)

/-- The writer that was preempted is about to store its second byte. -/
theorem output_kept_preempted :
    ∃ m, Runs.run Output.step hiddenPreempted sampleOutput = some m ∧
      m.Stands (.setXY 66 ⟨0, 1⟩) [] ∧
      ∀ e m', SwitchOk e m → WindowOk e m → NoUnderflow e m → m.step e = some m' →
        OutputKept e m m' := by
  have hrun : (Runs.run (Runs.guarded Output.step fun e m =>
      SwitchOk e m ∧ WindowOk e m ∧ NoUnderflow e m) hiddenPreempted sampleOutput).any
      (fun m => m.current = .writing true (.setXY 66 ⟨0, 1⟩) []) = true := by decide +kernel
  obtain ⟨m, hm, hcur⟩ := (Option.any_eq_true _ _).1 hrun
  exact ⟨m, Runs.run_of_guarded hm, ⟨true, of_decide_eq_true hcur⟩,
    (output_kept sampleLayout samplePaging _ _ m (Runs.reach_of_guarded hm)).2⟩

/-- The shells of all terminals run, and that of the visible one is preempted while it writes. -/
def visiblePreempted : List OutEvent :=
  ([.tick, .start, .tick, .start, .tick, .start, .tick] : List OutEvent) ++ sampleWriting
    ++ ([.tick, .tick, .tick] : List OutEvent)

/-- When the writer runs again, the console is at the cursor of a hidden terminal: the second
byte is stored over the first one, and its own cell stays blank. -/
theorem output_at_cursor_of_another_terminal :
    ∃ m m', Runs.Reach Output.step (fun _ _ => True) sampleOutput m ∧
      m.Stands (.setXY 66 ⟨0, 1⟩) [] ∧
      (m.display.terms m.display.scheduledTerm).cursor = ⟨0, 1⟩ ∧
      m.display.screenPage m.display.scheduledTerm = 0xB8 ∧ m.display.vram 0xB8 0 = 65 ∧
      m.step .run = some m' ∧ m'.display.vram 0xB8 0 = 66 ∧ m'.display.vram 0xB8 2 = 0 ∧
      ¬OutputKept .run m m' := by
  have hrun : (Runs.run Output.step visiblePreempted sampleOutput).any (fun m =>
      m.current = .writing true (.setXY 66 ⟨0, 1⟩) [] ∧
      (m.display.terms m.display.scheduledTerm).cursor = ⟨0, 1⟩ ∧
      m.display.screenPage m.display.scheduledTerm = 0xB8 ∧ m.display.vram 0xB8 0 = 65 ∧
      (m.step .run).any fun m' => m'.display.vram 0xB8 0 = 66 ∧ m'.display.vram 0xB8 2 = 0)
      = true := by decide +kernel
  obtain ⟨m, hm, hstate⟩ := (Option.any_eq_true _ _).1 hrun
  obtain ⟨hcur, hcursor, hpage, hfirst, hnext⟩ := of_decide_eq_true hstate
  obtain ⟨m', hm', hcells⟩ := (Option.any_eq_true _ _).1 hnext
  obtain ⟨hover, hblank⟩ := of_decide_eq_true hcells
  refine ⟨m, m', Runs.reach_of_run (fun _ _ => trivial) hm, ⟨true, hcur⟩, hcursor, hpage, hfirst,
    hm', hover, hblank, fun hok => ?_⟩
  obtain ⟨⟨hvram, -⟩, -⟩ := hok.stored 66 ⟨0, 1⟩ [] rfl ⟨true, hcur⟩ (by simp [Printable])
  -- the first cell would not have changed
  have hcell : m'.display.vram 0xB8 0 = m.display.vram 0xB8 0 := by
    rw [hvram, hpage, hcursor]
    rfl
  rw [hover, hfirst] at hcell
  exact absurd hcell (by decide)

end WnajOS
