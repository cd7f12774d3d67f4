-- SUMMARY: Typed errors of the parser and of the emitter.
import DroidsawHermes.Parser.Read

/-!
# Errors

The variants of `HermesError` and `HermesEmitError` that the modelled functions
return, with the data each one carries. Findings go to a side channel that no
function reads back and are not part of the model.
-/

namespace Hermes

/-- Names of the sections that the section walk records. -/
inductive SectionName where
  | header | functionHeaders | stringKinds | identifierHashes | smallStringTable
  | overflowStringTable | stringStorage | arrayBuffer | objKeyBuffer | objValueBuffer
  | objShapeTable | bigIntTable | bigIntStorage | regExpTable | regExpStorage | cjsModules
  | functionSourceTable
  deriving DecidableEq, Repr

/-- Error of `droidsaw_common::guard::bound_count`. -/
structure CountExceeded where
  got : Nat
  stride : Nat
  dataLen : Nat
  item : String
  deriving DecidableEq, Repr

inductive HermesError where
  | headerTooSmall (got : Nat)
  | invalidMagic (found : List UInt8)
  | unsupportedVersion (observed supportedMin supportedMax : Nat)
  | ambiguousV98Form (early late : UInt8)
  | overflowStringCountExceedsStringCount (overflow total : Nat)
  | boundCountExceeded (e : CountExceeded)
  | sectionSizeOverflow (name : SectionName) (size : Nat)
  | sectionExceedsBounds (name : SectionName) (cursor size fileLen : Nat)
  | sectionCursorOverflow (name : SectionName)
  | inconsistentDebugHeader (lexicalDataOffset debugDataSize : Nat)
  | functionHeaderEntryOutOfBounds (funcIdx entryOff fhSize bufLen : Nat)
  | overflowedHeaderOutOfBounds (funcIdx largeOff bufLen : Nat)
  | overflowedHeaderOverlapsSynthesizedRegion (funcIdx largeOff : Nat)
  | largeHeaderLayoutAmbiguous (funcIdx largeOff : Nat)
  | arithmeticOverflow (context : String)
  | functionBodyOutOfBytecodeRegion (funcIdx offset size regionStart regionEnd : Nat)
  | functionBodyOverlap (aIdx aOffset aSize bIdx bOffset bSize : Nat)
  | functionBodyDedupOverflow
      (dedupCount threshold firstOffset firstSize firstAIdx firstBIdx : Nat)
  | overflowIndexOutOfRange (index count : Nat)
  | zeroOffsetWithLength (index len : Nat)
  | stringStorageEndExceedsBuffer (index absOffset byteLen bound : Nat)
  | truncatedLiteralBuffer (tag expectedPayload remaining : Nat)
  | unknownOpcode (offset opcodeId numOpcodes : Nat)
  | truncatedInstructionStream (offset opcodeId : Nat)
  | functionIdOutOfRange (id functionCount : Nat)
  | functionBodyExceedsBuffer (offset size bufLen : Nat)
  | exceptionTableOverlapsSynthesizedRegion (funcIdx excOffset : Nat)
  | exceptionHandlerOutOfFunctionRange (funcIdx handlerIdx start stop target fnSize : Nat)
  | invalidExceptionHandlerTarget (target : Nat)
  | invalidExceptionLayout (catchBlock tryRegion : Nat)
  | countExceedsInput (got max : Nat) (item : String)
  | budget (context : String)
  deriving DecidableEq, Repr

inductive HermesEmitError where
  | sizeOverflow (sectionName : String) (got cap : Nat)
  | offsetOverflow (context : String)
  | unrepresentableIR (reason : String)
  | versionMismatch (expected got : Nat)
  | inputTooShort (got : Nat)
  deriving DecidableEq, Repr

end Hermes
