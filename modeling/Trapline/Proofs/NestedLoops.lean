import Mathlib.Algebra.Ring.Nat
import Trapline.Proofs.Labels
import Trapline.Proofs.Listings
import Trapline.Proofs.LoopRule

/-!
# Two loops, one in the other

The body of a loop may start a loop of its own. The traps of both have the same label, and the
inner loop has used up its traps when it leaves, so that the next return meets the outer one. The
program of this module runs through the characters of two texts in this way. It writes every pair of
a character of the first and a character of the second, and counts the pairs.

Main statements:
* `Pairs.leads_of_row`: the inner loop writes one row of the table of pairs.
* `Pairs.leads_of_table`: the outer loop writes the rows in order.
* `Pairs.run_of_text`: the text of the program loads, and its run writes the table and the
  number of pairs.
-/

namespace Trapline

namespace Value

theorem display_ofChars
    (chars : List Char) :
    (ofChars chars).display = String.ofList chars := by
  have hchars : (chars.map char).all isChar = true := by
    simp [List.all_map, isChar]
  rw [ofChars, display, if_pos hchars, displayAll_eq_map, List.map_map]
  apply String.toList_injective
  rw [String.toList_join, List.flatMap_map, String.toList_ofList]
  simp [display, List.flatMap_singleton']

theorem display_ofNat
    {n : Nat}
    (h : n < 2 ^ 63) :
    (int (.ofNat n)).display = toString n := by
  rw [display, Int64.toInt_ofNat_of_lt h]
  rfl

/-- Counting up by one is exact below the bound. -/
theorem add_one_of_lt
    {n : Nat}
    (h : n + 1 < 2 ^ 63) :
    (int (.ofNat n)).add (int 1) = .ok (int (.ofNat (n + 1))) := by
  have hn : (Int64.ofNat n).toInt = n := Int64.toInt_ofNat_of_lt (Nat.lt_of_succ_lt h)
  have hsum : (Int64.ofNat n).toInt + (1 : Int64).toInt = (Int64.ofNat (n + 1)).toInt := by
    rw [hn, Int64.toInt_ofNat_of_lt h]
    rfl
  rw [add, hsum, Integer.toInt64?_toInt]

end Value

namespace Program

variable {p : Program} {actions : List Action} {position : Nat}

theorem action?_of_getElem?
    {a : Action}
    (hactions : p.actions = actions)
    (h : actions[position]? = some a) :
    p.action? position = some a := by
  rw [← getElem?_actions, hactions, h]

/-- A label leads to a position that declares it if no later one does. -/
theorem label?_of_last
    {name : Name}
    (hactions : p.actions = actions)
    (hlabel : actions[position]? = some (.label name))
    (hlater : .label name ∉ actions.drop (position + 1)) :
    p.label? name = some position := by
  refine label?_eq_some_iff.2 ⟨action?_of_getElem? hactions hlabel, ?_⟩
  intro later hlt hagain
  rw [← getElem?_actions, hactions] at hagain
  apply hlater
  refine List.mem_of_getElem? (i := later - (position + 1)) ?_
  rw [List.getElem?_drop, Nat.add_sub_cancel' hlt, hagain]

end Program

/-! The program. -/

namespace Pairs

/-- The lines of a program that pairs the characters of two texts. -/
def lines (s t : String) : List String :=
  ["label: main",
    "set: :count, i0",
    "each: :a, \x22" ++ s ++ ", :outer_body, :outer_done",
    "label: outer_body",
    "each: :b, \x22" ++ t ++ ", :inner_body, :inner_done",
    "label: inner_body",
    "local_set: :pair, \x22",
    "vec_push: :pair, :a",
    "vec_push: :pair, :b",
    "put: :pair",
    "add: :count, i1, :count",
    "return_to_trap: :each",
    "label: inner_done",
    "return_to_trap: :each",
    "label: outer_done",
    "put: :count",
    "exit:"]

/-- The text of the program. -/
def text (s t : String) : String :=
  "\n".intercalate (lines s t)

/-- What the lines stand for. -/
def actions (s t : List Char) : List Action :=
  [.label "main",
    .set "count" (.int 0),
    .each "a" (.ofChars s) "outer_body" "outer_done",
    .label "outer_body",
    .each "b" (.ofChars t) "inner_body" "inner_done",
    .label "inner_body",
    .localSet "pair" (.ofChars []),
    .vecPush "pair" (.ident "a"),
    .vecPush "pair" (.ident "b"),
    .put (.ident "pair"),
    .add (.ident "count") (.int 1) "count",
    .returnToTrap "each",
    .label "inner_done",
    .returnToTrap "each",
    .label "outer_done",
    .put (.ident "count"),
    .exit]

/-- The pairs of one character with those of a text. -/
def row (t : List Char) (a : Char) : List String :=
  t.map fun b => String.ofList [a, b]

/-- The pairs of two texts, row by row. -/
def table (s t : List Char) : List String :=
  s.flatMap (row t)

/-- A line that starts a loop over a string. -/
theorem action?_each
    {item body escape line text : String}
    (hitem : Argument.IsPayload item.toList)
    (htext : Argument.IsPayload text.toList)
    (hbody : Argument.IsPayload body.toList)
    (hescape : Argument.IsPayload escape.toList)
    (hline :
      line = "each" ++ ": " ++
        ", ".intercalate [":" ++ item, "\x22" ++ text, ":" ++ body, ":" ++ escape]) :
    Command.action? line = some (.each item (.ofChars text.toList) body escape) := by
  have hkeyword : Command.IsKeyword "each" := by
    constructor <;> decide
  have hargs :
      List.Forall₂ Argument.Written
        [.ident item, .ofChars text.toList, .ident body, .ident escape]
        [":" ++ item, "\x22" ++ text, ":" ++ body, ":" ++ escape] :=
    .cons (.name hitem) (.cons (.string htext) (.cons (.name hbody) (.cons (.name hescape) .nil)))
  exact Command.action?_eq_some_iff.2
    (Command.reads_of_written hkeyword hargs hline ⟨_, rfl, rfl⟩)

theorem reads_lines
    {s t : String}
    (hs : Argument.IsPayload s.toList)
    (ht : Argument.IsPayload t.toList) :
    List.Forall₂ Reads (lines s t) (actions s.toList t.toList) := by
  apply Command.reads_of_map_action?
  have houter :
      Command.action? ("each: :a, \x22" ++ s ++ ", :outer_body, :outer_done") =
        some (.each "a" (.ofChars s.toList) "outer_body" "outer_done") := by
    refine action?_each (by decide) hs (by decide) (by decide) ?_
    apply String.toList_injective
    simp
  have hinner :
      Command.action? ("each: :b, \x22" ++ t ++ ", :inner_body, :inner_done") =
        some (.each "b" (.ofChars t.toList) "inner_body" "inner_done") := by
    refine action?_each (by decide) ht (by decide) (by decide) ?_
    apply String.toList_injective
    simp
  rw [lines]
  simp only [List.map_cons, houter, hinner]
  rfl

theorem isLine_each
    {front text back : String}
    (hfront : '\n' ∉ front.toList)
    (htext : '\n' ∉ text.toList)
    (hback : Text.IsLine back.toList)
    (hne : back.toList ≠ []) :
    Text.IsLine (front ++ text ++ back).toList := by
  rw [String.toList_append]
  refine Text.IsLine.append ?_ hback hne
  rw [String.toList_append, List.mem_append, not_or]
  exact ⟨hfront, htext⟩

theorem isLine_lines
    {s t : String}
    (hs : '\n' ∉ s.toList)
    (ht : '\n' ∉ t.toList) :
    ∀ line ∈ lines s t, Text.IsLine line.toList := by
  have houter :
      Text.IsLine ("each: :a, \x22" ++ s ++ ", :outer_body, :outer_done").toList :=
    isLine_each (by decide) hs (by decide) (by decide)
  have hinner :
      Text.IsLine ("each: :b, \x22" ++ t ++ ", :inner_body, :inner_done").toList :=
    isLine_each (by decide) ht (by decide) (by decide)
  simp only [lines, List.forall_mem_cons, houter, hinner]
  decide

theorem exists_ofText
    {s t : String}
    (hs : Argument.IsPayload s.toList)
    (hsline : '\n' ∉ s.toList)
    (ht : Argument.IsPayload t.toList)
    (htline : '\n' ∉ t.toList)
    (file : String) :
    ∃ p, Program.ofText (text s t) file = .ok p ∧ p.actions = actions s.toList t.toList :=
  Program.exists_ofText_of_reads (reads_lines hs ht) (isLine_lines hsline htline) (by simp [lines])
    file

open Machine

/-- The root frame with the number of pairs. -/
def counted (n : Nat) : Memory :=
  .root (Bindings.empty.insert "count" (.int (.ofNat n)))

/-- The memory in the body of the outer loop. -/
def inRow (a : Char) (n : Nat) : Memory :=
  .scope (Bindings.empty.insert "a" (.char a)) (counted n)

/-- The frame of the inner loop with a character and what has been put together so far. -/
def cell (b : Char) (pair : List Char) : Frame :=
  (Bindings.empty.insert "b" (.char b)).insert "pair" (.ofChars pair)

section

variable {p : Program} {s t : List Char} (hp : p.actions = actions s t)

include hp

/-- One round of the inner loop writes one pair. It does not matter whether the frame of the loop is
new or has the variables of the round before. -/
theorem leads_of_cell
    {a b : Char}
    {n : Nat}
    {frame : Frame}
    {memory : Memory}
    {written : List String}
    (hn : n + 1 < 2 ^ 63)
    (hframe : frame = .empty ∨ ∃ c pair, frame = cell c pair)
    (hbind : (Memory.scope frame (inRow a n)).setOrLocal "b" (.char b) = .ok memory)
    (traps : List Trap) :
    Leads p
      ⟨5, memory, traps, written.toArray⟩
      ⟨11, .scope (cell b [a, b]) (inRow a (n + 1)), traps,
        (written ++ [String.ofList [a, b]]).toArray⟩ := by
  have hlocal :
      memory.localSet "pair" (.ofChars []) = .ok (.scope (cell b []) (inRow a n)) := by
    rcases hframe with rfl | ⟨c, pair, rfl⟩
    · cases hbind
      rfl
    · cases hbind
      rfl
  have hcount :
      Action.update (.scope (cell b [a, b]) (inRow a n)) (.add (.ident "count") (.int 1) "count") =
        .ok (.scope (cell b [a, b]) (inRow a (n + 1))) :=
    bind_eq_ok_iff.2 ⟨.int (.ofNat n), rfl, bind_eq_ok_iff.2 ⟨.int 1, rfl,
      bind_eq_ok_iff.2 ⟨_, Value.add_one_of_lt hn, rfl⟩⟩⟩
  have hwrite :
      Sink.write written.toArray (Value.ofChars [a, b]).display =
        (.ok (), (written ++ [String.ofList [a, b]]).toArray) := by
    rw [Value.display_ofChars, ← List.push_toArray]
    rfl
  calc
    Leads p ⟨5, memory, traps, written.toArray⟩ ⟨6, memory, traps, written.toArray⟩ :=
      leads_of_update (Program.action?_of_getElem? hp rfl) (fun _ => rfl) rfl
    Leads p _ ⟨7, .scope (cell b []) (inRow a n), traps, written.toArray⟩ :=
      leads_of_update (Program.action?_of_getElem? hp rfl) (fun _ => rfl) hlocal
    Leads p _ ⟨8, .scope (cell b [a]) (inRow a n), traps, written.toArray⟩ :=
      leads_of_update (Program.action?_of_getElem? hp rfl) (fun _ => rfl) rfl
    Leads p _ ⟨9, .scope (cell b [a, b]) (inRow a n), traps, written.toArray⟩ :=
      leads_of_update (Program.action?_of_getElem? hp rfl) (fun _ => rfl) rfl
    Leads p _ ⟨10, .scope (cell b [a, b]) (inRow a n), traps,
        (written ++ [String.ofList [a, b]]).toArray⟩ :=
      leads_of_put (Program.action?_of_getElem? hp rfl) rfl hwrite
    Leads p _ _ :=
      leads_of_update (Program.action?_of_getElem? hp rfl) (fun _ => rfl) hcount

/-- The inner loop writes one row. -/
theorem leads_of_row
    {n : Nat}
    (hn : n + t.length < 2 ^ 63)
    (a : Char)
    (traps : List Trap)
    (written : List String) :
    Leads p
      ⟨4, inRow a n, traps, written.toArray⟩
      ⟨12, inRow a (n + t.length), traps, (written ++ row t a).toArray⟩ := by
  have hbody : p.label? "inner_body" = some 5 :=
    Program.label?_of_last hp rfl (by simp [actions])
  have hescape : p.label? "inner_done" = some 12 :=
    Program.label?_of_last hp rfl (by simp [actions])
  -- the frame is new before the first round, and has the variables of the last round after it
  refine leads_of_each
    { item := "b", items := t.map .char, body := "inner_body", escape := "inner_done", next := 0 }
    (fun k memory out =>
      ∃ frame,
        (frame = .empty ∨ ∃ c pair, frame = cell c pair) ∧
        memory = .scope frame (inRow a (n + k)) ∧
        out = (written ++ row (t.take k) a).toArray)
    ?_ hbody hescape ?_ ?_ (Program.action?_of_getElem? hp rfl) rfl ?_
  · simp [Value.isIdent]
  · rintro k v memory memory₁ out hitem ⟨frame, hframe, rfl, rfl⟩ hbind
    rw [List.getElem?_map] at hitem
    obtain ⟨b, hb, rfl⟩ := Option.map_eq_some_iff.1 hitem
    have hk : k < t.length := (List.getElem?_eq_some_iff.1 hb).1
    have hrow : row (t.take (k + 1)) a = row (t.take k) a ++ [String.ofList [a, b]] := by
      simp [row, List.take_add_one, hb]
    refine ⟨11, _, _, Program.action?_of_getElem? hp rfl, ?_,
      leads_of_cell hp (by omega) hframe hbind _⟩
    refine ⟨cell b [a, b], .inr ⟨b, [a, b], rfl⟩, rfl, ?_⟩
    rw [hrow, List.append_assoc]
  · rintro memory out ⟨frame, -, rfl, rfl⟩
    rw [List.length_map, List.take_length]
    exact ⟨rfl, rfl⟩
  · exact ⟨.empty, .inl rfl, rfl, by simp [row]⟩

/-- The outer loop writes the rows in order. -/
theorem leads_of_table
    (hbound : s.length * t.length < 2 ^ 63) :
    Leads p
      ⟨2, counted 0, [], #[]⟩
      ⟨14, counted (s.length * t.length), [], (table s t).toArray⟩ := by
  have hbody : p.label? "outer_body" = some 3 :=
    Program.label?_of_last hp rfl (by simp [actions])
  have hescape : p.label? "outer_done" = some 14 :=
    Program.label?_of_last hp rfl (by simp [actions])
  refine leads_of_each
    { item := "a", items := s.map .char, body := "outer_body", escape := "outer_done", next := 0 }
    (fun k memory out =>
      ∃ frame : Frame,
        (frame = .empty ∨ ∃ a, frame = Bindings.empty.insert "a" (.char a)) ∧
        memory = .scope frame (counted (k * t.length)) ∧
        out = (table (s.take k) t).toArray)
    ?_ hbody hescape ?_ ?_ (Program.action?_of_getElem? hp rfl) rfl ?_
  · simp [Value.isIdent]
  · rintro k v memory memory₁ out hitem ⟨frame, hframe, rfl, rfl⟩ hbind
    rw [List.getElem?_map] at hitem
    obtain ⟨a, ha, rfl⟩ := Option.map_eq_some_iff.1 hitem
    obtain rfl : inRow a (k * t.length) = memory₁ := by
      rcases hframe with rfl | ⟨c, rfl⟩
      · cases hbind
        rfl
      · cases hbind
        rfl
    have hk : k + 1 ≤ s.length := (List.getElem?_eq_some_iff.1 ha).1
    have hn : k * t.length + t.length < 2 ^ 63 := by
      rw [← Nat.succ_mul]
      exact Nat.lt_of_le_of_lt (Nat.mul_le_mul_right _ hk) hbound
    have htable : table (s.take (k + 1)) t = table (s.take k) t ++ row t a := by
      simp [table, List.take_add_one, ha]
    refine ⟨13, inRow a ((k + 1) * t.length), (table (s.take (k + 1)) t).toArray,
      Program.action?_of_getElem? hp rfl, ⟨_, .inr ⟨a, rfl⟩, rfl, rfl⟩, ?_⟩
    rw [Nat.succ_mul, htable]
    -- the return at 13 is reached with the traps of the inner loop gone
    calc
      Leads p ⟨3, inRow a (k * t.length), _, _⟩ ⟨4, inRow a (k * t.length), _, _⟩ :=
        leads_of_update (Program.action?_of_getElem? hp rfl) (fun _ => rfl) rfl
      Leads p _ ⟨12, inRow a (k * t.length + t.length), _, _⟩ :=
        leads_of_row hp hn a _ _
      Leads p _ _ :=
        leads_of_update (Program.action?_of_getElem? hp rfl) (fun _ => rfl) rfl
  · rintro memory out ⟨frame, -, rfl, rfl⟩
    rw [List.length_map, List.take_length]
    exact ⟨rfl, rfl⟩
  · refine ⟨.empty, .inl rfl, ?_, rfl⟩
    rw [Nat.zero_mul]
    rfl

theorem reaches_exit
    (hbound : s.length * t.length < 2 ^ 63) :
    Reaches p (start p #[])
      ⟨16, counted (s.length * t.length), [],
        (table s t ++ [toString (s.length * t.length)]).toArray⟩ := by
  have hmain : p.label? "main" = some 0 :=
    Program.label?_of_last hp rfl (by simp [actions])
  have hstart : (start p (#[] : Array String)).IsAt ⟨0, .empty, [], #[]⟩ :=
    ⟨congrArg (Option.getD · 0) hmain, rfl, rfl, rfl, rfl⟩
  have hwrite :
      Sink.write (table s t).toArray (Value.int (.ofNat (s.length * t.length))).display =
        (.ok (), (table s t ++ [toString (s.length * t.length)]).toArray) := by
    rw [Value.display_ofNat hbound, ← List.push_toArray]
    rfl
  refine hstart.reaches.trans ?_
  calc
    Leads p ⟨0, .empty, [], (#[] : Array String)⟩ ⟨1, .empty, [], #[]⟩ :=
      leads_of_update (Program.action?_of_getElem? hp rfl) (fun _ => rfl) rfl
    Leads p _ ⟨2, counted 0, [], #[]⟩ :=
      leads_of_update (Program.action?_of_getElem? hp rfl) (fun _ => rfl) rfl
    Leads p _ ⟨14, counted (s.length * t.length), [], (table s t).toArray⟩ :=
      leads_of_table hp hbound
    Leads p _ ⟨15, counted (s.length * t.length), [], (table s t).toArray⟩ :=
      leads_of_update (Program.action?_of_getElem? hp rfl) (fun _ => rfl) rfl
    Leads p _ _ :=
      leads_of_put (Program.action?_of_getElem? hp rfl) rfl hwrite

end

/-- **The product of two texts.** Take two texts, empty ones included, that can be written as string
arguments on a line, with fewer than 2 ^ 63 pairs. The text of the program loads, and its run halts
with status zero. It has written every pair, row by row, and then the number of pairs in decimal. No
frame but the root and no trap is left. -/
theorem run_of_text
    {s t : String}
    (hs : Argument.IsPayload s.toList)
    (hsline : '\n' ∉ s.toList)
    (ht : Argument.IsPayload t.toList)
    (htline : '\n' ∉ t.toList)
    (hbound : s.length * t.length < 2 ^ 63)
    (file : String) :
    ∃ p n m,
      Program.ofText (text s t) file = .ok p ∧
      (start p (#[] : Array String)).run p none n = .halted 0 m ∧
      m.out.toList = table s.toList t.toList ++ [toString (s.length * t.length)] ∧
      m.memory.depth = 1 ∧
      m.traps = [] := by
  obtain ⟨p, hload, hp⟩ := exists_ofText hs hsline ht htline file
  obtain ⟨n, m, hrun, hm⟩ := reaches_exit hp hbound
  have hexit : p.action? m.position = some .exit :=
    (congrArg p.action? hm.position).trans (Program.action?_of_getElem? hp rfl)
  obtain ⟨location, hstep⟩ := step_of_action hexit
  refine ⟨p, n + 1, m.count, hload, (run_succ hrun).trans hstep, ?_, ?_, hm.traps⟩
  · exact congrArg Array.toList hm.out
  · exact congrArg Memory.depth hm.memory

/-- Two rows of three pairs, and a table without columns for a text that looks like other parts of a
line. -/
theorem run_of_text_two_by_three :
    (∃ p n m,
      Program.ofText (text "xy" "123") "main" = .ok p ∧
      (start p (#[] : Array String)).run p none n = .halted 0 m ∧
      m.out.toList = ["x1", "x2", "x3", "y1", "y2", "y3", "6"] ∧
      m.memory.depth = 1 ∧
      m.traps = []) ∧
    ∃ p n m,
      Program.ofText (text " \r\x22:a#" "") "main" = .ok p ∧
      (start p (#[] : Array String)).run p none n = .halted 0 m ∧
      m.out.toList = ["0"] ∧
      m.memory.depth = 1 ∧
      m.traps = [] := by
  constructor
  · exact run_of_text (by decide) (by decide) (by decide) (by decide) (by decide) "main"
  · exact run_of_text (by decide) (by decide) (by decide) (by decide) (by decide) "main"

end Pairs
end Trapline
