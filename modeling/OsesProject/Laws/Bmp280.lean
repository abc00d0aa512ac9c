import OsesProject.Lib.Run
import OsesProject.Peripherals.Bmp280

/-!
# When the fields of the barometer are independent

A setter writes the register with its own field replaced, if its reading has brought the register;
if it has brought nothing, it writes its own field beside zeros (`setField_regs`). So a setter keeps
to its field exactly when its writing fails, or its reading does not, or the other bits of the
register are zero (`setters_independent_iff`).
-/

namespace OsesProject

open Machine

variable {d d' : RegisterFile} {fates : SetterFates} {calls : List SetterCall}

namespace SetterFates

/-- The reading has brought its byte. -/
def Delivers (fates : SetterFates) : Prop := fates.address = .done ∧ fates.byte.received 1 = 1

instance (fates : SetterFates) : Decidable fates.Delivers := inferInstanceAs (Decidable (_ ∧ _))

/-- No message fails. -/
def Done (fates : SetterFates) : Prop :=
  fates.address = .done ∧ fates.byte = .done ∧ fates.write = .done

theorem Done.delivers (h : fates.Done) : fates.Delivers := ⟨h.1, by rw [h.2.1, Fate.received]⟩

end SetterFates

/-! ## One call -/

/-- A write reaches the register or changes nothing. -/
theorem regWrite_regs (d : RegisterFile) (reg value : UInt8) (fate : Fate) :
    (regWrite d reg value fate).regs =
      if fate = .done then Function.update d.regs reg value else d.regs := by
  cases fate <;> rfl

/-- A reading changes no register, and gives the register or zero when no byte has come. -/
theorem regRead_spec (d : RegisterFile) (reg : UInt8) (address byte : Fate) :
    (regRead d reg address byte).1.regs = d.regs ∧
      (regRead d reg address byte).2 =
        if address = .done ∧ byte.received 1 = 1 then d.regs reg else 0 := by
  cases address with
  | stops k => exact ⟨rfl, by simp [regRead, i2cBitXfer, i2cMessage]⟩
  | done =>
    cases byte with
    | done => exact ⟨rfl, rfl⟩
    | stops k =>
      cases k with
      | zero => exact ⟨rfl, rfl⟩
      | succ k =>
        simp [regRead, i2cBitXfer, i2cMessage, i2cRecvBytes, Fate.received, RegisterFile.read]

/-- What a setter writes. -/
theorem setField_regs (reg mask : UInt8) (d : RegisterFile) (arg : UInt8) (fates : SetterFates) :
    (setField reg mask d arg fates).regs =
      if fates.write = .done then
        Function.update d.regs reg
          (((if fates.Delivers then d.regs reg else 0) &&& ~~~mask) ||| (arg &&& mask))
      else d.regs := by
  obtain ⟨hregs, hvalue⟩ := regRead_spec d reg fates.address fates.byte
  rw [setField, regWrite_regs, hregs, hvalue]
  rfl

/-- The setters are instances of one. -/
theorem Setter.set_eq (f : Setter) : f.set = setField f.reg f.mask := by
  cases f <;> rfl

theorem and_of_or (a b c : UInt8) : (a ||| b) &&& c = (a &&& c) ||| (b &&& c) := by
  apply UInt8.toBitVec_inj.mp
  exact BitVec.and_or_distrib_right

/-- The bits outside a field after it is replaced. -/
theorem replaced_outside (x a m : UInt8) : ((x &&& ~~~m) ||| (a &&& m)) &&& ~~~m = x &&& ~~~m := by
  rw [and_of_or, UInt8.and_assoc, UInt8.and_assoc, UInt8.and_self, UInt8.and_not_self,
    UInt8.and_zero, UInt8.or_zero]

/-- The bits of another mask after a field is replaced. -/
theorem replaced_apart {x a m n : UInt8} (hmn : m &&& n = 0) (hn : ~~~m &&& n = n) :
    ((x &&& ~~~m) ||| (a &&& m)) &&& n = x &&& n := by
  rw [and_of_or, UInt8.and_assoc, UInt8.and_assoc, hmn, hn, UInt8.and_zero, UInt8.or_zero]

/-- The bits of a field after it is replaced. -/
theorem replaced_inside (x a m : UInt8) : ((x &&& ~~~m) ||| (a &&& m)) &&& m = a &&& m := by
  rw [and_of_or, UInt8.and_assoc, UInt8.and_assoc, UInt8.not_and_self, UInt8.and_self,
    UInt8.and_zero, UInt8.zero_or]

/-- Fields of one register have no bit in common. -/
theorem Setter.mask_apart {f g : Setter} (hne : f ≠ g) (hreg : f.reg = g.reg) :
    f.mask &&& g.mask = 0 ∧ ~~~f.mask &&& g.mask = g.mask := by
  cases f <;> cases g <;>
    first
    | exact absurd rfl hne
    | exact absurd hreg (by decide)
    | exact ⟨rfl, rfl⟩

/-- A call keeps to its field: the registers keep their bits outside its mask, and the field is as
before or has the argument. -/
def Independent (c : SetterCall) (d d' : RegisterFile) : Prop :=
  (∀ r, r ≠ c.setter.reg → d'.regs r = d.regs r) ∧
    d'.regs c.setter.reg &&& ~~~c.setter.mask = d.regs c.setter.reg &&& ~~~c.setter.mask ∧
    (d'.regs c.setter.reg &&& c.setter.mask = d.regs c.setter.reg &&& c.setter.mask ∨
      d'.regs c.setter.reg &&& c.setter.mask = c.arg &&& c.setter.mask)

/-- A call whose writing succeeds has read its register, or finds no other bit in it. -/
def Informed (d : RegisterFile) (c : SetterCall) : Prop :=
  c.fates.write = .done →
    c.fates.Delivers ∨ d.regs c.setter.reg &&& ~~~c.setter.mask = 0

/-- **One call.** -/
theorem independent_iff (d : RegisterFile) (c : SetterCall) :
    Independent c d (c.setter.set d c.arg c.fates) ↔ Informed d c := by
  rw [Independent, Informed, Setter.set_eq, setField_regs]
  by_cases hw : c.fates.write = .done
  · rw [if_pos hw, Function.update_self, replaced_outside, replaced_inside]
    by_cases hd : c.fates.Delivers
    · rw [if_pos hd]
      exact ⟨fun _ _ => .inl hd, fun _ => ⟨fun r hr => Function.update_of_ne hr _ _, rfl, .inr rfl⟩⟩
    · rw [if_neg hd, UInt8.zero_and]
      constructor
      · intro h _
        exact .inr h.2.1.symm
      · intro h
        have hzero := (h hw).resolve_left hd
        exact ⟨fun r hr => Function.update_of_ne hr _ _, hzero.symm, .inr rfl⟩
  · rw [if_neg hw]
    exact ⟨fun _ h => absurd h hw, fun _ => ⟨fun _ _ => rfl, rfl, .inl rfl⟩⟩

/-! ## Sequences of calls -/

/-- The bits of a field. -/
def RegisterFile.field (d : RegisterFile) (f : Setter) : UInt8 := d.regs f.reg &&& f.mask

/-- The last value set for a field, or the one it had. -/
def lastSet (f : Setter) : UInt8 → List SetterCall → UInt8
  | x, [] => x
  | x, c :: calls => lastSet f (if c.setter = f then c.arg &&& f.mask else x) calls

/-- A call without failure sets its field and no other. -/
theorem field_set_of_done (d : RegisterFile) (c : SetterCall) (h : c.fates.Done) (f : Setter) :
    (c.setter.set d c.arg c.fates).field f =
      if c.setter = f then c.arg &&& f.mask else d.field f := by
  rw [RegisterFile.field, Setter.set_eq, setField_regs, if_pos h.2.2, if_pos h.delivers]
  by_cases hf : c.setter = f
  · rw [if_pos hf, ← hf, Function.update_self, replaced_inside]
  · rw [if_neg hf]
    by_cases hreg : f.reg = c.setter.reg
    · obtain ⟨hzero, hkept⟩ := Setter.mask_apart hf hreg.symm
      rw [hreg, Function.update_self, replaced_apart hzero hkept, RegisterFile.field, hreg]
    · rw [Function.update_of_ne hreg]
      rfl

/-- Without failures every field has the last value set for it. -/
theorem field_run_of_done (h : ∀ c ∈ calls, c.fates.Done)
    (hrun : run SetterCall.step d calls = some d') (f : Setter) :
    d'.field f = lastSet f (d.field f) calls := by
  induction calls generalizing d with
  | nil =>
    cases hrun
    rfl
  | cons c calls ih =>
    refine (ih (fun c' hc' => h c' (List.mem_cons_of_mem _ hc')) hrun).trans ?_
    rw [lastSet, field_set_of_done d c (h c List.mem_cons_self)]

/-- **When the fields are independent.** For every content of the registers, every sequence of calls
of the setters with any arguments, and all that can become of their messages: each call keeps to its
field if and only if each call whose writing succeeds has read its register or finds no other bit
set in it; and if no message fails, every field has the last value set for it. -/
theorem setters_independent_iff (d : RegisterFile) (calls : List SetterCall) :
    (Each SetterCall.step (fun d c => Independent c d (c.setter.set d c.arg c.fates)) d calls ↔
      Each SetterCall.step Informed d calls) ∧
    ((∀ c ∈ calls, c.fates.Done) → ∀ d', run SetterCall.step d calls = some d' →
      ∀ f, d'.field f = lastSet f (d.field f) calls) := by
  refine ⟨?_, fun h d' hrun f => field_run_of_done h hrun f⟩
  exact each_congr (I := fun _ => True) (fun _ _ _ _ _ => trivial)
    (fun d c _ => independent_iff d c) trivial

/-- The standby time is set when its reading fails and its writing does not: the filter is off
afterwards. -/
theorem standby_clears_filter :
    ¬Each SetterCall.step (fun d c => Independent c d (c.setter.set d c.arg c.fates))
      ⟨fun r => if r = bmp280RegConfig then 0x10 else 0, 0⟩
      [⟨.standby, 0x40, ⟨.stops 0, .done, .done⟩⟩] := by
  intro h
  exact absurd h.1.2.1 (by decide)

end OsesProject
