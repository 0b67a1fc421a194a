import JarGraph.Proofs.ClassFile.Pooled
import JarGraph.Proofs.Extraction.Report
/-!
# The two depths of an extraction

An inventory decodes the header of a class and an extraction with
dependencies the whole class, which starts with the same read of the
header. So the inventory is the part of the other report that says where
classes are (`extract_inventory`): it answers wherever the other does,
and a header that is refused is refused in both for the same cause. What
follows the table of interfaces, be it malformed or missing, makes no
difference to an inventory.
-/

namespace JarGraph

namespace ClassFile

variable {data : Bytes} {header : Header} {cause : Error}

/-! ## The header of a class -/

/-- The header of a class that can be decoded is what the header alone is decoded as. -/
theorem parse_header_of_class {c : Class} (h : Class.parse data = .ok c) :
    Header.parse data = .ok c.header := by
  have answer : Class.read data = (.ok c, (Class.read data).2) := Prod.ext h rfl
  obtain ⟨⟨header, pool⟩, middle, hheader, hbody⟩ := bind_eq_ok answer
  -- Nothing that is read after the header changes it.
  have kept : c.header = header := by
    refine (?_ : Yields _ fun found : Class => found.header = header) _ _ _ hbody
    refine .after fun count => .after fun fields => .after fun count => .after fun methods => ?_
    exact .after fun attributes => .after fun _ => .after fun references => .pure rfl
  rw [Header.parse, hheader, kept]
  rfl

/-- A class whose header is refused is refused for the same cause. -/
theorem parse_class_of_header (h : Header.parse data = .error cause) :
    Class.parse data = .error cause := by
  have hread : (Header.read data).1 = .error cause := Answer.map_eq_error.1 h
  exact bind_apply_error hread

/-- **A header ends with its table of interfaces**, and what follows the table is not looked at. -/
theorem parse_header_extent (h : Header.parse data = .ok header) :
    ∃ pool front table rest, data = front ++ table ++ rest ∧
      (Header.read data).1 = .ok (header, pool) ∧ IsInterfaceTable (header, pool) table ∧
      (∀ other, Header.parse (front ++ table ++ other) = .ok header) ∧
      ∀ short, short <+: front ++ table → short ≠ front ++ table →
        Header.parse short = .error .unexpectedEnd := by
  obtain ⟨⟨found, pool⟩, hread, rfl⟩ := Answer.map_eq_ok.1 h
  have answer : Header.read data = (.ok (found, pool), (Header.read data).2) := Prod.ext hread rfl
  obtain ⟨front, table, hdata, hspans, htable⟩ := endsWith_header _ _ _ answer
  refine ⟨pool, front, table, _, hdata, hread, htable, fun other => ?_, fun short hshort hne => ?_⟩
  · rw [Header.parse, hspans.reads other]
    rfl
  · rw [Header.parse, hspans.needsAll short hshort hne]
    rfl

end ClassFile

open ClassFile (Header IsInterfaceTable)

/-! ## The two reports -/

/-- Whether a sighting says where a class is. -/
def Sighting.isClass : Sighting → Bool
  | .class _ _ => true
  | .observed _ => false
  | .reference _ _ => false

namespace Extraction

variable {data : Bytes} {container : Path} {x : Extraction} {cause : ClassFile.Error}

/-- Of what a class reports, only the class itself is a place of a class. -/
theorem filter_isClass_sightings (h : extract data container .dependencies = .ok x) :
    x.sightings.filter Sighting.isClass = [.class container x.name] := by
  obtain ⟨names, hsightings⟩ := exists_sightings h
  have hreferences : (names.map (Sighting.reference x.name)).filter Sighting.isClass = [] := by
    rw [List.filter_map, List.map_eq_nil_iff, List.filter_eq_nil_iff]
    exact fun name _ => Bool.false_ne_true
  rw [hsightings, List.filter_cons_of_pos rfl, List.filter_cons_of_neg Bool.false_ne_true,
    hreferences]

theorem extract_inventory_eq (data : Bytes) (container : Path) :
    extract data container .inventory =
      (Header.parse data).map fun header => ⟨header.name, [.class container header.name]⟩ :=
  rfl

theorem extract_dependencies_eq (data : Bytes) (container : Path) :
    extract data container .dependencies =
      (ClassFile.Class.parse data).map fun c => ⟨c.name, report container c⟩ :=
  rfl

/-- **An inventory is the class half of an extraction.** Where a class can be extracted with its
dependencies, the inventory has the same name and of the same sightings those that are places of
classes; where the inventory is refused, so is the other extraction, for the same cause. The header
that both decode ends with its table of interfaces: whatever takes the place of what follows, the
header is the same, and without all of the table there is none. -/
theorem extract_inventory (data : Bytes) (container : Path) :
    (∀ x, extract data container .dependencies = .ok x →
      extract data container .inventory = .ok ⟨x.name, x.sightings.filter Sighting.isClass⟩) ∧
    (∀ cause, extract data container .inventory = .error cause →
      extract data container .dependencies = .error cause) ∧
    ∀ header, Header.parse data = .ok header →
      ∃ pool front table rest, data = front ++ table ++ rest ∧
        (Header.read data).1 = .ok (header, pool) ∧ IsInterfaceTable (header, pool) table ∧
        (∀ other, Header.parse (front ++ table ++ other) = .ok header) ∧
        ∀ short, short <+: front ++ table → short ≠ front ++ table →
          Header.parse short = .error .unexpectedEnd := by
  refine ⟨fun x h => ?_, fun cause h => ?_, fun header h => ClassFile.parse_header_extent h⟩
  · have hclass := filter_isClass_sightings h
    obtain ⟨c, hc, rfl⟩ := Answer.map_eq_ok.1 h
    rw [hclass, extract_inventory_eq, ClassFile.parse_header_of_class hc]
    rfl
  · have hheader : Header.parse data = .error cause := Answer.map_eq_error.1 h
    rw [extract_dependencies_eq, ClassFile.parse_class_of_header hheader]
    rfl

end Extraction

end JarGraph
