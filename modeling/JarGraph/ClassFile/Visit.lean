import JarGraph.ClassFile.Basic
/-!
# The elements of a class

A class is walked element by element, in the order of the class file. `Class.elements` lists what a
walk passes; `Class.visit` hands the elements to a visitor, which may stop the walk with a failure
of its own monad. Both are the same walk (`Class.visit_eq_forM`).
-/

namespace JarGraph.ClassFile

/-- One structural element of a class. -/
inductive Element where
  | thisClass (name : String)
  | superclass (name : String)
  | interface (name : String)
  | signature (text : String)
  /-- A descriptor that an annotation of the class names. -/
  | mark (descriptor : String)
  | field (member : Member)
  | method (member : Member)
  | innerClass (name : String)
  | pooledClass (name : String)
  | pooledDescriptor (text : String)
  /-- The end of the class. -/
  | finish
  deriving DecidableEq, Repr, Inhabited

/-- The element for a name that the pool holds. -/
def Element.ofReference : Pool.Reference → Element
  | .class name => pooledClass name
  | .descriptor text => pooledDescriptor text

namespace Class

/-- The elements of the class in the order of a walk. -/
def elements (c : Class) : List Element :=
  .thisClass c.name :: c.header.superclass.toList.map .superclass
    ++ c.header.interfaces.map .interface
    ++ c.signature.toList.map .signature
    ++ c.marks.map .mark
    ++ c.fields.map .field
    ++ c.methods.map .method
    ++ c.innerClasses.map .innerClass
    ++ c.references.map .ofReference
    ++ [.finish]

/-- Hands every element of the class to the visitor. -/
def visit {m : Type → Type} [Monad m] (c : Class) (visitor : Element → m PUnit) : m PUnit := do
  visitor (.thisClass c.header.name)
  if let some name := c.header.superclass then
    visitor (.superclass name)
  c.header.interfaces.forM fun name => visitor (.interface name)
  if let some text := c.signature then
    visitor (.signature text)
  c.marks.forM fun descriptor => visitor (.mark descriptor)
  c.fields.forM fun member => visitor (.field member)
  c.methods.forM fun member => visitor (.method member)
  c.innerClasses.forM fun name => visitor (.innerClass name)
  c.references.forM fun
    | .class name => visitor (.pooledClass name)
    | .descriptor text => visitor (.pooledDescriptor text)
  visitor .finish

end Class

variable {m : Type → Type}

/-- A name of the pool reaches a visitor as the element of its sort. -/
theorem Element.apply_ofReference (visitor : Element → m PUnit) :
    (fun reference => visitor (ofReference reference)) = fun
      | .class name => visitor (.pooledClass name)
      | .descriptor text => visitor (.pooledDescriptor text) := by
  funext reference
  cases reference <;> rfl

/-- **A visit passes exactly the elements, in their order**, in every lawful monad, so that a fact
about a visitor is a fact about a list. -/
theorem Class.visit_eq_forM [Monad m] [LawfulMonad m] (c : Class) (visitor : Element → m PUnit) :
    c.visit visitor = c.elements.forM visitor := by
  unfold visit elements
  cases c.header.superclass <;> cases c.signature <;>
    simp [Class.name, Element.apply_ofReference]

end JarGraph.ClassFile
