import Mathlib.Logic.Basic
import RemoteCalls.CommandLine.Config

/-!
# RemoteCalls.Proofs.CommandLine.Items

The items that a command line is made of: flags with the argument behind them,
arguments that belong to no flag, and requests for help.

Arguments can be split into items in one way only (`Split.eq_split`), and reading
them is taking up these items one by one (`Draft.read_eq_foldl`).  Walking from
place to place stays on the command line and reads the same (`scan_eq`), so that
what has been read at the end can be said of the items: what they ask for
(`asked_parse`), and what is wrong with them (`complaints_ne_nil`).
-/

namespace RemoteCalls.Config

/-! ## Items -/

/-- An item of a command line. -/
inductive Item where
  | help
  /-- A flag by its name, with the argument behind it, if there is one. -/
  | flag (kind : Flag) (name : Bytes) (value : Option Bytes)
  | positional (arg : Bytes)
  deriving DecidableEq, Repr

namespace Item

/-- The arguments that an item is made of. -/
def elements : Item → List Bytes
  | help => [.ofText "--help"]
  | flag _ name value => name :: value.toList
  | positional arg => [arg]

/-- The first argument of an item makes it what it is; the one behind a flag may be any. -/
def Proper : Item → Prop
  | help => True
  | flag kind name _ => Flag.ofArgument? name = some kind
  | positional arg => arg ≠ .ofText "--help" ∧ Flag.ofArgument? arg = none

/-- A flag with nothing behind it. -/
def IsAlone : Item → Prop
  | flag _ _ none => True
  | _ => False

/-- The host that an item gives. -/
@[simp]
def host? : Item → Option Bytes
  | flag .host _ value => value
  | _ => none

/-- The port that an item gives. -/
@[simp]
def port? : Item → Option Int
  | flag .port _ value => value.bind Arguments.integer?
  | _ => none

/-- The codec that an item gives. -/
@[simp]
def codec? : Item → Option Bytes
  | flag .codec _ value => value
  | _ => none

/-- The argument of an item that has no flag. -/
@[simp]
def positional? : Item → Option Bytes
  | positional arg => some arg
  | _ => none

/-- What there is to complain about in an item. -/
@[simp]
def complaint? : Item → Option Bytes
  | flag .port name value =>
      if (value.bind Arguments.integer?).isNone then
        some (.ofText "Error on command-line: " ++ Arguments.expected "integer" name)
      else none
  | flag _ name value =>
      if value.isNone then
        some (.ofText "Error on command-line: " ++ Arguments.expected "string" name)
      else none
  | _ => none

end Item

/-- Arguments as items, from left to right. -/
structure Split (args : List Bytes) (items : List Item) : Prop where
  /-- Every argument belongs to one item, in the order of the arguments. -/
  covers : items.flatMap Item.elements = args
  proper : ∀ item ∈ items, item.Proper
  /-- A flag with nothing behind it is the last item. -/
  alone : ∀ item ∈ items.dropLast, ¬ item.IsAlone

/-- Split arguments into items. -/
def split : List Bytes → List Item
  | [] => []
  | arg :: rest =>
      if arg = .ofText "--help" then .help :: split rest
      else
        match Flag.ofArgument? arg with
        | none => .positional arg :: split rest
        | some flag =>
            match rest with
            | [] => [.flag flag arg none]
            | value :: others => .flag flag arg (some value) :: split others

theorem ne_help_of_ofArgument? {arg : Bytes} {flag : Flag} (h : Flag.ofArgument? arg = some flag) :
    arg ≠ .ofText "--help" := by
  rintro rfl
  exact absurd h (by decide +revert)

theorem split_help (rest : List Bytes) :
    split (.ofText "--help" :: rest) = .help :: split rest := by
  rw [split, if_pos rfl]

theorem split_positional {arg : Bytes} (hhelp : arg ≠ .ofText "--help")
    (hflag : Flag.ofArgument? arg = none) (rest : List Bytes) :
    split (arg :: rest) = .positional arg :: split rest := by
  rw [split, if_neg hhelp, hflag]

theorem split_flag {arg : Bytes} {flag : Flag} (hflag : Flag.ofArgument? arg = some flag)
    (rest : List Bytes) :
    split (arg :: rest) = .flag flag arg rest.head? :: split rest.tail := by
  rw [split, if_neg (ne_help_of_ofArgument? hflag), hflag]
  cases rest <;> rfl

/-- Behind an item whose flag has its argument, or that has none, others may stand. -/
theorem Split.cons {args : List Bytes} {items : List Item} (h : Split args items) (item : Item)
    (hproper : item.Proper) (halone : items ≠ [] → ¬ item.IsAlone) :
    Split (item.elements ++ args) (item :: items) where
  covers := by rw [List.flatMap_cons, h.covers]
  proper := List.forall_mem_cons.mpr ⟨hproper, h.proper⟩
  alone := by
    cases items with
    | nil => simp
    | cons next items =>
        exact List.forall_mem_cons.mpr ⟨halone (List.cons_ne_nil next items), h.alone⟩

/-- What stands behind an item is split as well. -/
theorem Split.of_cons {item : Item} {args : List Bytes} {items : List Item}
    (h : Split args (item :: items)) : Split (items.flatMap Item.elements) items where
  covers := rfl
  proper := (List.forall_mem_cons.mp h.proper).2
  alone := by
    cases items with
    | nil => simp
    | cons next items => exact (List.forall_mem_cons.mp h.alone).2

/-- Arguments can be split into items. -/
theorem split_spec (args : List Bytes) : Split args (split args) := by
  induction args using split.induct with
  | case1 => exact ⟨rfl, by simp [split], by simp [split]⟩
  | case2 rest ih =>
      rw [split_help]
      exact ih.cons .help trivial fun _ => id
  | case3 arg rest hhelp hflag ih =>
      rw [split_positional hhelp hflag]
      exact ih.cons (.positional arg) ⟨hhelp, hflag⟩ fun _ => id
  | case4 arg _ flag hflag =>
      rw [split_flag hflag]
      have hnil : Split [] (split []) := ⟨rfl, by simp [split], by simp [split]⟩
      exact hnil.cons (.flag flag arg none) hflag fun hne => absurd rfl hne
  | case5 arg _ flag hflag value others ih =>
      rw [split_flag hflag]
      exact ih.cons (.flag flag arg (some value)) hflag fun _ => id

/-- Arguments can be split into items in one way only. -/
theorem Split.eq_split {args : List Bytes} {items : List Item} (h : Split args items) :
    items = split args := by
  induction items generalizing args with
  | nil => rw [← h.covers]; rfl
  | cons item items ih =>
      have hproper : item.Proper := h.proper item List.mem_cons_self
      have hrest := ih h.of_cons
      rw [← h.covers, List.flatMap_cons]
      cases item with
      | help => rw [Item.elements, List.singleton_append, split_help, ← hrest]
      | positional arg =>
          rw [Item.elements, List.singleton_append, split_positional hproper.1 hproper.2, ← hrest]
      | flag kind name value =>
          rw [Item.elements, List.cons_append, split_flag hproper]
          cases value with
          | some value => rw [Option.toList_some, List.singleton_append, List.head?_cons,
              List.tail_cons, ← hrest]
          | none =>
              cases items with
              | nil => rfl
              | cons next items => exact absurd trivial (h.alone _ List.mem_cons_self)

/-! ## Reading items -/

/-- Take up an item. -/
def Draft.take (d : Draft) : Item → Draft
  | .help => d.askHelp
  | .flag kind name value => d.readFlag kind name value.toList
  | .positional arg => d.addPositional arg

theorem Draft.read_help (d : Draft) (rest : List Bytes) :
    d.read (.ofText "--help" :: rest) = d.askHelp.read rest := by
  rw [read.eq_def]
  exact if_pos rfl

theorem Draft.read_positional (d : Draft) {arg : Bytes} (hhelp : arg ≠ .ofText "--help")
    (hflag : Flag.ofArgument? arg = none) (rest : List Bytes) :
    d.read (arg :: rest) = (d.addPositional arg).read rest := by
  rw [read.eq_def]
  refine (if_neg hhelp).trans ?_
  rw [hflag]

theorem Draft.read_flag (d : Draft) {arg : Bytes} {flag : Flag}
    (hflag : Flag.ofArgument? arg = some flag) (rest : List Bytes) :
    d.read (arg :: rest) = (d.readFlag flag arg rest).read rest.tail := by
  rw [read.eq_def]
  refine (if_neg (ne_help_of_ofArgument? hflag)).trans ?_
  rw [hflag]
  cases rest <;> rfl

/-- A flag looks at the argument behind it only. -/
theorem Draft.readFlag_head? (d : Draft) (flag : Flag) (name : Bytes) (rest : List Bytes) :
    d.readFlag flag name rest.head?.toList = d.readFlag flag name rest := by
  cases rest <;> cases flag <;> rfl

/-- Reading arguments is taking up their items one after another. -/
theorem Draft.read_eq_foldl (d : Draft) (args : List Bytes) :
    d.read args = (split args).foldl take d := by
  induction args using split.induct generalizing d with
  | case1 => rfl
  | case2 rest ih =>
      rw [read_help, split_help, List.foldl_cons, ih]
      rfl
  | case3 arg rest hhelp hflag ih =>
      rw [read_positional d hhelp hflag, split_positional hhelp hflag, List.foldl_cons, ih]
      rfl
  | case4 arg _ flag hflag =>
      rw [read_flag d hflag, split_flag hflag]
      rfl
  | case5 arg _ flag hflag value others ih =>
      rw [read_flag d hflag, split_flag hflag, List.foldl_cons, List.tail_cons, ih, take,
        readFlag_head?]

/-- What is known when items have been taken up: of what is given again, the last counts. -/
def Draft.after (d : Draft) (items : List Item) : Draft where
  config :=
    { d.config with
      showHelp := d.config.showHelp || items.contains .help
      host := (items.filterMap Item.host?).getLastD d.config.host
      port := (items.filterMap Item.port?).getLastD d.config.port
      codec := (items.filterMap Item.codec?).getLastD d.config.codec }
  positional := d.positional ++ items.filterMap Item.positional?
  complaints := d.complaints ++ items.filterMap Item.complaint?

/-- A flag keeps what it gets, or there is a complaint about it. -/
theorem Draft.keep_valueAfter {α : Type} (d : Draft) (set : Config → α → Config) (kind : String)
    (read : Bytes → Option α) (name : Bytes) (value : Option Bytes) :
    d.keep set (Arguments.valueAfter kind read name value.toList) =
      match value.bind read with
      | none => d.complain (Arguments.expected kind name)
      | some v => { d with config := set d.config v } := by
  rw [Arguments.valueAfter, Option.head?_toList]
  cases value.bind read <;> rfl

/-- An item changes what it gives, and nothing else. -/
theorem Draft.take_eq_after (d : Draft) (item : Item) : d.take item = d.after [item] := by
  cases item with
  | help => simp [take, askHelp, after]
  | positional arg => simp [take, addPositional, after]
  | flag kind name value =>
      cases kind with
      | host =>
          rw [take, readFlag, keepHost, Arguments.stringAfter, keep_valueAfter]
          cases value <;> simp [complain, after]
      | port =>
          rw [take, readFlag, keepPort, Arguments.integerAfter, keep_valueAfter]
          cases hport : value.bind Arguments.integer? <;> simp [complain, after, hport]
      | codec =>
          rw [take, readFlag, keepCodec, Arguments.stringAfter, keep_valueAfter]
          cases value <;> simp [complain, after]

/-- Items are taken up one after another. -/
theorem Draft.after_after (d : Draft) (items later : List Item) :
    (d.after items).after later = d.after (items ++ later) := by
  simp [after, Bool.or_assoc, List.getLastD_eq_getLast?, Option.getD_or]

theorem Draft.foldl_take (d : Draft) (items : List Item) : items.foldl take d = d.after items := by
  induction items generalizing d with
  | nil => simp [after]
  | cons item items ih =>
      rw [List.foldl_cons, ih, take_eq_after, after_after, List.singleton_append]

/-! ## Reading place by place -/

theorem Draft.readFlagAt_eq (d : Draft) (flag : Flag) {args : List Bytes} {i : Nat}
    (h : i < args.length) :
    d.readFlagAt flag args i =
      .ok (d.readFlag flag args[i] (args.drop (i + 1)), ((i + 1 : Nat) : Int)) := by
  cases flag with
  | host =>
      rw [readFlagAt, Arguments.stringAt, Arguments.valueAt_eq _ _ h]
      rfl
  | port =>
      rw [readFlagAt, Arguments.integerAt, Arguments.valueAt_eq _ _ h]
      rfl
  | codec =>
      rw [readFlagAt, Arguments.stringAt, Arguments.valueAt_eq _ _ h]
      rfl

theorem Draft.readFrom_of_readAt {args : List Bytes} {d d' : Draft} {i j : Nat}
    (h : i < args.length) (hread : d.readAt args i = .ok (d', (j : Int))) :
    readFrom args d i = readFrom args d' (j + 1 : Nat) := by
  rw [readFrom, if_pos (Int.ofNat_lt.mpr h)]
  split
  case h_1 cause herror =>
    rw [hread] at herror
    contradiction
  case h_2 _ _ hok =>
    rw [hread] at hok
    obtain ⟨rfl, rfl⟩ := Prod.mk.inj (Except.ok.inj hok)
    rfl

/-- From any place on, what is read does not depend on how the arguments are gone through. -/
theorem Draft.readFrom_eq (args : List Bytes) (d : Draft) (i : Nat) :
    readFrom args d i = .ok (d.read (args.drop i)) := by
  -- A flag passes two places at once, so the recursion is on how many are left.
  by_cases h : i < args.length
  case neg =>
    rw [readFrom, if_neg (by omega), List.drop_eq_nil_of_le (by omega)]
    rfl
  case pos =>
    have harg : Arguments.argument args i = .ok args[i] := Arguments.argument_eq h
    rw [List.drop_eq_getElem_cons h]
    by_cases hhelp : args[i] = .ofText "--help"
    case pos =>
      have hread : d.readAt args i = .ok (d.askHelp, (i : Int)) := by
        rw [readAt, harg]
        exact if_pos hhelp
      rw [readFrom_of_readAt h hread, readFrom_eq args d.askHelp (i + 1), hhelp, read_help]
    case neg =>
      cases hflag : Flag.ofArgument? args[i] with
      | none =>
          have hread : d.readAt args i = .ok (d.addPositional args[i], (i : Int)) := by
            rw [readAt, harg]
            refine (if_neg hhelp).trans ?_
            rw [hflag]
            rfl
          rw [readFrom_of_readAt h hread, readFrom_eq args _ (i + 1), read_positional d hhelp hflag]
      | some flag =>
          have hread : d.readAt args i =
              .ok (d.readFlag flag args[i] (args.drop (i + 1)), ((i + 1 : Nat) : Int)) := by
            rw [readAt, harg]
            refine (if_neg hhelp).trans ?_
            rw [hflag]
            exact d.readFlagAt_eq flag h
          rw [readFrom_of_readAt h hread, readFrom_eq args _ (i + 1 + 1), read_flag d hflag,
            List.tail_drop]
termination_by args.length - i

/-- Reading a command line comes to its end without leaving it. -/
theorem scan_eq (args : List Bytes) : scan args = .ok (parse args) := by
  have hread := Draft.readFrom_eq args {} 1
  rw [scan, show (1 : Int) = ((1 : Nat) : Int) from rfl, hread]
  rfl

/-! ## What a command line asks for -/

/-- What is known when a command line has been read. -/
theorem parse_eq (args : List Bytes) :
    parse args = (({} : Draft).after (split (args.drop 1))).finish := by
  rw [parse, Draft.read_eq_foldl, Draft.foldl_take]

/-- What items ask for, when nothing is wrong with them. -/
structure Asked (items : List Item) (config : Config) : Prop where
  help : config.showHelp = true ↔ .help ∈ items
  host : config.host = (items.filterMap Item.host?).getLastD (.ofText "localhost")
  port : config.port = (items.filterMap Item.port?).getLastD 9999
  codec : config.codec = (items.filterMap Item.codec?).getLastD binaryCodec

theorem Draft.assign_eq (d : Draft) :
    ∃ service method args, d.assign = { d.config with service, method, args } := by
  unfold assign
  split
  case h_1 service method args _ => exact ⟨service, method, args, rfl⟩
  case h_2 => exact ⟨_, _, _, rfl⟩

/-- If there are two arguments or more, all of them are assigned. -/
theorem Draft.positional_eq {d : Draft} (h : 2 ≤ d.positional.length) :
    d.positional = d.assign.service :: d.assign.method :: d.assign.args := by
  unfold assign
  split
  case h_1 heq => exact heq
  case h_2 hshort =>
    obtain ⟨service, others, heq⟩ :=
      List.exists_cons_of_length_pos (Nat.lt_of_lt_of_le Nat.two_pos h)
    rw [heq, List.length_cons, Nat.succ_le_succ_iff] at h
    obtain ⟨method, others, rfl⟩ := List.exists_cons_of_length_pos h
    exact absurd heq (hshort service method others)

theorem asked_finish {d : Draft} {items : List Item} (h : Asked items d.config) :
    Asked items d.finish.1 := by
  unfold Draft.finish
  split
  case isTrue => exact h
  case isFalse =>
    obtain ⟨service, method, args, heq⟩ := d.assign_eq
    rw [heq]
    exact ⟨h.help, h.host, h.port, h.codec⟩

theorem asked_parse (args : List Bytes) : Asked (split (args.drop 1)) (parse args).1 := by
  rw [parse_eq]
  refine asked_finish ⟨?_, rfl, rfl, rfl⟩
  rw [Draft.after, Bool.false_or, List.contains_iff_mem]

/-- There is something to complain about in an item. -/
theorem Item.isSome_complaint? {item : Item} :
    item.complaint?.isSome = true ↔
      (∃ kind name, item = .flag kind name none) ∨
        ∃ name text, item = .flag .port name (some text) ∧ Arguments.integer? text = none := by
  cases item with
  | help => simp
  | positional arg => simp
  | flag kind name value => cases kind <;> cases value <;> simp [and_assoc]

/-- What can be wrong with items: a flag has nothing behind it, something else than an integer is
given as a port, no port of this number can be connected to, or the service or the method is not
named. -/
def Mistaken (items : List Item) : Prop :=
  (∃ kind name, .flag kind name none ∈ items) ∨
  (∃ name text, .flag .port name (some text) ∈ items ∧ Arguments.integer? text = none) ∨
  ¬ (1 ≤ (items.filterMap Item.port?).getLastD 9999 ∧
      (items.filterMap Item.port?).getLastD 9999 ≤ 65535) ∨
  (items.filterMap Item.positional?).length < 2

theorem filterMap_complaint?_ne_nil {items : List Item} :
    items.filterMap Item.complaint? ≠ [] ↔
      (∃ kind name, .flag kind name none ∈ items) ∨
        ∃ name text, .flag .port name (some text) ∈ items ∧ Arguments.integer? text = none := by
  have hsome : items.filterMap Item.complaint? ≠ [] ↔
      ∃ item ∈ items, item.complaint?.isSome = true := by
    simp [List.filterMap_eq_nil_iff, Option.isSome_iff_ne_none]
  rw [hsome]
  constructor
  · rintro ⟨item, hitem, hcomplaint⟩
    obtain ⟨kind, name, rfl⟩ | ⟨name, text, rfl, hport⟩ := Item.isSome_complaint?.mp hcomplaint
    · exact .inl ⟨kind, name, hitem⟩
    · exact .inr ⟨name, text, hitem, hport⟩
  · rintro (⟨kind, name, hitem⟩ | ⟨name, text, hitem, hport⟩)
    · exact ⟨_, hitem, Item.isSome_complaint?.mpr (.inl ⟨kind, name, rfl⟩)⟩
    · exact ⟨_, hitem, Item.isSome_complaint?.mpr (.inr ⟨name, text, rfl, hport⟩)⟩

theorem finalComplaints_eq_nil {d : Draft} :
    d.finalComplaints = [] ↔
      (1 ≤ d.config.port ∧ d.config.port ≤ 65535) ∧ 2 ≤ d.positional.length := by
  have hport : portInRange d.config.port = true ↔ 1 ≤ d.config.port ∧ d.config.port ≤ 65535 := by
    simp only [portInRange, Bool.and_eq_true, decide_eq_true_eq]
    omega
  simp [Draft.finalComplaints, hport, Nat.lt_iff_add_one_le]

/-- A command line that does not ask for help is checked to its end. -/
theorem parse_of_showHelp {args : List Bytes} (hhelp : (parse args).1.showHelp = false) :
    parse args =
      ((({} : Draft).after (split (args.drop 1))).assign,
        (split (args.drop 1)).filterMap Item.complaint? ++
          (({} : Draft).after (split (args.drop 1))).finalComplaints) := by
  rw [parse_eq, Draft.finish] at hhelp ⊢
  split at hhelp
  case isTrue hasked => exact absurd (hasked.symm.trans hhelp) (by simp)
  case isFalse hnot => rw [if_neg hnot]; rfl

/-- There are complaints just if something is wrong. -/
theorem complaints_ne_nil {args : List Bytes} (hhelp : (parse args).1.showHelp = false) :
    (parse args).2 ≠ [] ↔ Mistaken (split (args.drop 1)) := by
  have hitems := @filterMap_complaint?_ne_nil (split (args.drop 1))
  have hfinal := finalComplaints_eq_nil (d := ({} : Draft).after (split (args.drop 1)))
  rw [parse_of_showHelp hhelp, Mistaken, ← or_assoc, ← hitems, ne_eq, List.append_eq_nil_iff,
    hfinal, not_and_or, not_and_or, Nat.not_le]
  rfl

/-- Without complaints, the arguments without flags are the service, the method and the call's own
arguments. -/
theorem filterMap_positional? {args : List Bytes} (hhelp : (parse args).1.showHelp = false)
    (hright : (parse args).2 = []) :
    (split (args.drop 1)).filterMap Item.positional? =
      (parse args).1.service :: (parse args).1.method :: (parse args).1.args := by
  rw [parse_of_showHelp hhelp] at hright ⊢
  obtain ⟨-, hfinal⟩ := List.append_eq_nil_iff.mp hright
  exact Draft.positional_eq (finalComplaints_eq_nil.mp hfinal).2

end RemoteCalls.Config
