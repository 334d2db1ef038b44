/-
The intrinsics: call-like operations known by a fixed name, and the category each belongs to. An `f`
in front of a name marks floating point data, an `r` a result narrowed to one to four lanes.
`Intrinsic.catalog` lists them all by category, and a name is read by looking it up there.
-/
import Lanewise.Text.UnknownWord

namespace Lanewise

/-- What an intrinsic does to the lanes of its arguments. -/
inductive IntrinsicCategory where
  | pipeline
  | packing
  | textureSample
  | textureQuery
  | geometry
  | derivative
  | vectorReduction
  | floatMath
  | integerMath
  | bitManipulation
  | vectorAssembly
  | control
  deriving DecidableEq, Repr

/-- Each intrinsic is spelled as its name is written. -/
inductive Intrinsic where
  | readData | fReadData | fWriteInterpolant | fReadInterpolant | fReadInterpolantOffset | getInterpolant
  | writeData | fWriteData
  | fPackUnorm2x16 | fPackUnorm4x8 | fPackSnorm4x8 | fUnpackUnorm2x16 | fUnpackUnorm4x8 | fUnpackSnorm4x8
  | fPackDouble2x32 | fUnpackDouble2x32
  | textureSample | fTextureSample | rTextureSample1 | fRTextureSample1 | rTextureSample2 | fRTextureSample2
  | rTextureSample3 | fRTextureSample3 | rTextureSample4 | fRTextureSample4 | textureSampleLodRefZ
  | fTextureSampleLodRefZ | rTextureSampleLodRefZ1 | fRTextureSampleLodRefZ1 | rTextureSampleLodRefZ2
  | fRTextureSampleLodRefZ2 | rTextureSampleLodRefZ3 | fRTextureSampleLodRefZ3 | rTextureSampleLodRefZ4
  | fRTextureSampleLodRefZ4 | textureSampleLodRefZOffset | fTextureSampleLodRefZOffset
  | rTextureSampleLodRefZOffset1 | fRTextureSampleLodRefZOffset1 | rTextureSampleLodRefZOffset2
  | fRTextureSampleLodRefZOffset2 | rTextureSampleLodRefZOffset3 | fRTextureSampleLodRefZOffset3
  | rTextureSampleLodRefZOffset4 | fRTextureSampleLodRefZOffset4 | textureSampleLodRefZOffsetGrad
  | fTextureSampleLodRefZOffsetGrad | rTextureSampleLodRefZOffsetGrad1 | fRTextureSampleLodRefZOffsetGrad1
  | rTextureSampleLodRefZOffsetGrad2 | fRTextureSampleLodRefZOffsetGrad2 | rTextureSampleLodRefZOffsetGrad3
  | fRTextureSampleLodRefZOffsetGrad3 | rTextureSampleLodRefZOffsetGrad4 | fRTextureSampleLodRefZOffsetGrad4
  | texelFetchOffset | fTexelFetchOffset | texelGather | fTexelGather | texelGatherOffset
  | fTexelGatherOffset | texelGatherOffsets | fTexelGatherOffsets
  | queryTextureSize | fQueryTextureLod
  | fLength | fDistance | fDot2 | fDot3 | fDot4 | fCross | fNormalize | fNormalize3D | fLit | fFaceForward
  | fReflect | fRefract
  | fDFdx | fDFdy | fFilterWidth | fFixedTransform
  | any | all
  | fSaturate | fClamp | fMin | fMax | fAbs | fSign | fFloor | fCeiling | fRoundEven | fRoundZero
  | fRoundFast | fFraction | fModF | fMix | fStep | fSmoothStep | fIsNan | fIsInf | fFma | fSqrt
  | fInverseSqrt | fSin | fCos | fTan | fAsin | fAcos | fAtan | fAtan2 | fSinh | fCosh | fTanh | fAsinh
  | fAcosh | fAtanh | fPow | fPowi | fExp | fLog | fExp2 | fLog2 | fExp10 | fLog10
  | sMin | sMax | uMin | uMax | sClamp | uClamp | abs | sign | addCarry | subBorrow | umulExtended
  | smulExtended
  | sBitFieldExtract | uBitFieldExtract | bitFieldInsert | bitReverse | bitCount | findLSB | sFindMSB
  | uFindMSB | fFrexp | fLdexp | floatBitsToInt | intBitsToFloat
  | swizzle | fSwizzle | multiInsert | fMultiInsert
  | emitVertex | endPrimitive | emitStreamVertex | endStreamPrimitive | barrier | memoryBarrier
  | discardConditional
  deriving DecidableEq

namespace Intrinsic

def catalog : List Intrinsic :=
  [.readData, .fReadData, .fWriteInterpolant, .fReadInterpolant, .fReadInterpolantOffset, .getInterpolant,
    .writeData, .fWriteData, .fPackUnorm2x16, .fPackUnorm4x8, .fPackSnorm4x8, .fUnpackUnorm2x16,
    .fUnpackUnorm4x8, .fUnpackSnorm4x8, .fPackDouble2x32, .fUnpackDouble2x32, .textureSample,
    .fTextureSample, .rTextureSample1, .fRTextureSample1, .rTextureSample2, .fRTextureSample2,
    .rTextureSample3, .fRTextureSample3, .rTextureSample4, .fRTextureSample4, .textureSampleLodRefZ,
    .fTextureSampleLodRefZ, .rTextureSampleLodRefZ1, .fRTextureSampleLodRefZ1, .rTextureSampleLodRefZ2,
    .fRTextureSampleLodRefZ2, .rTextureSampleLodRefZ3, .fRTextureSampleLodRefZ3, .rTextureSampleLodRefZ4,
    .fRTextureSampleLodRefZ4, .textureSampleLodRefZOffset, .fTextureSampleLodRefZOffset,
    .rTextureSampleLodRefZOffset1, .fRTextureSampleLodRefZOffset1, .rTextureSampleLodRefZOffset2,
    .fRTextureSampleLodRefZOffset2, .rTextureSampleLodRefZOffset3, .fRTextureSampleLodRefZOffset3,
    .rTextureSampleLodRefZOffset4, .fRTextureSampleLodRefZOffset4, .textureSampleLodRefZOffsetGrad,
    .fTextureSampleLodRefZOffsetGrad, .rTextureSampleLodRefZOffsetGrad1, .fRTextureSampleLodRefZOffsetGrad1,
    .rTextureSampleLodRefZOffsetGrad2, .fRTextureSampleLodRefZOffsetGrad2, .rTextureSampleLodRefZOffsetGrad3,
    .fRTextureSampleLodRefZOffsetGrad3, .rTextureSampleLodRefZOffsetGrad4,
    .fRTextureSampleLodRefZOffsetGrad4, .texelFetchOffset, .fTexelFetchOffset, .texelGather, .fTexelGather,
    .texelGatherOffset, .fTexelGatherOffset, .texelGatherOffsets, .fTexelGatherOffsets, .queryTextureSize,
    .fQueryTextureLod, .fLength, .fDistance, .fDot2, .fDot3, .fDot4, .fCross, .fNormalize, .fNormalize3D,
    .fLit, .fFaceForward, .fReflect, .fRefract, .fDFdx, .fDFdy, .fFilterWidth, .fFixedTransform, .any, .all,
    .fSaturate, .fClamp, .fMin, .fMax, .fAbs, .fSign, .fFloor, .fCeiling, .fRoundEven, .fRoundZero,
    .fRoundFast, .fFraction, .fModF, .fMix, .fStep, .fSmoothStep, .fIsNan, .fIsInf, .fFma, .fSqrt,
    .fInverseSqrt, .fSin, .fCos, .fTan, .fAsin, .fAcos, .fAtan, .fAtan2, .fSinh, .fCosh, .fTanh, .fAsinh,
    .fAcosh, .fAtanh, .fPow, .fPowi, .fExp, .fLog, .fExp2, .fLog2, .fExp10, .fLog10, .sMin, .sMax, .uMin,
    .uMax, .sClamp, .uClamp, .abs, .sign, .addCarry, .subBorrow, .umulExtended, .smulExtended,
    .sBitFieldExtract, .uBitFieldExtract, .bitFieldInsert, .bitReverse, .bitCount, .findLSB, .sFindMSB,
    .uFindMSB, .fFrexp, .fLdexp, .floatBitsToInt, .intBitsToFloat, .swizzle, .fSwizzle, .multiInsert,
    .fMultiInsert, .emitVertex, .endPrimitive, .emitStreamVertex, .endStreamPrimitive, .barrier,
    .memoryBarrier, .discardConditional]

def name : Intrinsic → String
  | .readData => "readData"
  | .fReadData => "fReadData"
  | .fWriteInterpolant => "fWriteInterpolant"
  | .fReadInterpolant => "fReadInterpolant"
  | .fReadInterpolantOffset => "fReadInterpolantOffset"
  | .getInterpolant => "getInterpolant"
  | .writeData => "writeData"
  | .fWriteData => "fWriteData"
  | .fPackUnorm2x16 => "fPackUnorm2x16"
  | .fPackUnorm4x8 => "fPackUnorm4x8"
  | .fPackSnorm4x8 => "fPackSnorm4x8"
  | .fUnpackUnorm2x16 => "fUnpackUnorm2x16"
  | .fUnpackUnorm4x8 => "fUnpackUnorm4x8"
  | .fUnpackSnorm4x8 => "fUnpackSnorm4x8"
  | .fPackDouble2x32 => "fPackDouble2x32"
  | .fUnpackDouble2x32 => "fUnpackDouble2x32"
  | .textureSample => "textureSample"
  | .fTextureSample => "fTextureSample"
  | .rTextureSample1 => "rTextureSample1"
  | .fRTextureSample1 => "fRTextureSample1"
  | .rTextureSample2 => "rTextureSample2"
  | .fRTextureSample2 => "fRTextureSample2"
  | .rTextureSample3 => "rTextureSample3"
  | .fRTextureSample3 => "fRTextureSample3"
  | .rTextureSample4 => "rTextureSample4"
  | .fRTextureSample4 => "fRTextureSample4"
  | .textureSampleLodRefZ => "textureSampleLodRefZ"
  | .fTextureSampleLodRefZ => "fTextureSampleLodRefZ"
  | .rTextureSampleLodRefZ1 => "rTextureSampleLodRefZ1"
  | .fRTextureSampleLodRefZ1 => "fRTextureSampleLodRefZ1"
  | .rTextureSampleLodRefZ2 => "rTextureSampleLodRefZ2"
  | .fRTextureSampleLodRefZ2 => "fRTextureSampleLodRefZ2"
  | .rTextureSampleLodRefZ3 => "rTextureSampleLodRefZ3"
  | .fRTextureSampleLodRefZ3 => "fRTextureSampleLodRefZ3"
  | .rTextureSampleLodRefZ4 => "rTextureSampleLodRefZ4"
  | .fRTextureSampleLodRefZ4 => "fRTextureSampleLodRefZ4"
  | .textureSampleLodRefZOffset => "textureSampleLodRefZOffset"
  | .fTextureSampleLodRefZOffset => "fTextureSampleLodRefZOffset"
  | .rTextureSampleLodRefZOffset1 => "rTextureSampleLodRefZOffset1"
  | .fRTextureSampleLodRefZOffset1 => "fRTextureSampleLodRefZOffset1"
  | .rTextureSampleLodRefZOffset2 => "rTextureSampleLodRefZOffset2"
  | .fRTextureSampleLodRefZOffset2 => "fRTextureSampleLodRefZOffset2"
  | .rTextureSampleLodRefZOffset3 => "rTextureSampleLodRefZOffset3"
  | .fRTextureSampleLodRefZOffset3 => "fRTextureSampleLodRefZOffset3"
  | .rTextureSampleLodRefZOffset4 => "rTextureSampleLodRefZOffset4"
  | .fRTextureSampleLodRefZOffset4 => "fRTextureSampleLodRefZOffset4"
  | .textureSampleLodRefZOffsetGrad => "textureSampleLodRefZOffsetGrad"
  | .fTextureSampleLodRefZOffsetGrad => "fTextureSampleLodRefZOffsetGrad"
  | .rTextureSampleLodRefZOffsetGrad1 => "rTextureSampleLodRefZOffsetGrad1"
  | .fRTextureSampleLodRefZOffsetGrad1 => "fRTextureSampleLodRefZOffsetGrad1"
  | .rTextureSampleLodRefZOffsetGrad2 => "rTextureSampleLodRefZOffsetGrad2"
  | .fRTextureSampleLodRefZOffsetGrad2 => "fRTextureSampleLodRefZOffsetGrad2"
  | .rTextureSampleLodRefZOffsetGrad3 => "rTextureSampleLodRefZOffsetGrad3"
  | .fRTextureSampleLodRefZOffsetGrad3 => "fRTextureSampleLodRefZOffsetGrad3"
  | .rTextureSampleLodRefZOffsetGrad4 => "rTextureSampleLodRefZOffsetGrad4"
  | .fRTextureSampleLodRefZOffsetGrad4 => "fRTextureSampleLodRefZOffsetGrad4"
  | .texelFetchOffset => "texelFetchOffset"
  | .fTexelFetchOffset => "fTexelFetchOffset"
  | .texelGather => "texelGather"
  | .fTexelGather => "fTexelGather"
  | .texelGatherOffset => "texelGatherOffset"
  | .fTexelGatherOffset => "fTexelGatherOffset"
  | .texelGatherOffsets => "texelGatherOffsets"
  | .fTexelGatherOffsets => "fTexelGatherOffsets"
  | .queryTextureSize => "queryTextureSize"
  | .fQueryTextureLod => "fQueryTextureLod"
  | .fLength => "fLength"
  | .fDistance => "fDistance"
  | .fDot2 => "fDot2"
  | .fDot3 => "fDot3"
  | .fDot4 => "fDot4"
  | .fCross => "fCross"
  | .fNormalize => "fNormalize"
  | .fNormalize3D => "fNormalize3D"
  | .fLit => "fLit"
  | .fFaceForward => "fFaceForward"
  | .fReflect => "fReflect"
  | .fRefract => "fRefract"
  | .fDFdx => "fDFdx"
  | .fDFdy => "fDFdy"
  | .fFilterWidth => "fFilterWidth"
  | .fFixedTransform => "fFixedTransform"
  | .any => "any"
  | .all => "all"
  | .fSaturate => "fSaturate"
  | .fClamp => "fClamp"
  | .fMin => "fMin"
  | .fMax => "fMax"
  | .fAbs => "fAbs"
  | .fSign => "fSign"
  | .fFloor => "fFloor"
  | .fCeiling => "fCeiling"
  | .fRoundEven => "fRoundEven"
  | .fRoundZero => "fRoundZero"
  | .fRoundFast => "fRoundFast"
  | .fFraction => "fFraction"
  | .fModF => "fModF"
  | .fMix => "fMix"
  | .fStep => "fStep"
  | .fSmoothStep => "fSmoothStep"
  | .fIsNan => "fIsNan"
  | .fIsInf => "fIsInf"
  | .fFma => "fFma"
  | .fSqrt => "fSqrt"
  | .fInverseSqrt => "fInverseSqrt"
  | .fSin => "fSin"
  | .fCos => "fCos"
  | .fTan => "fTan"
  | .fAsin => "fAsin"
  | .fAcos => "fAcos"
  | .fAtan => "fAtan"
  | .fAtan2 => "fAtan2"
  | .fSinh => "fSinh"
  | .fCosh => "fCosh"
  | .fTanh => "fTanh"
  | .fAsinh => "fAsinh"
  | .fAcosh => "fAcosh"
  | .fAtanh => "fAtanh"
  | .fPow => "fPow"
  | .fPowi => "fPowi"
  | .fExp => "fExp"
  | .fLog => "fLog"
  | .fExp2 => "fExp2"
  | .fLog2 => "fLog2"
  | .fExp10 => "fExp10"
  | .fLog10 => "fLog10"
  | .sMin => "sMin"
  | .sMax => "sMax"
  | .uMin => "uMin"
  | .uMax => "uMax"
  | .sClamp => "sClamp"
  | .uClamp => "uClamp"
  | .abs => "abs"
  | .sign => "sign"
  | .addCarry => "addCarry"
  | .subBorrow => "subBorrow"
  | .umulExtended => "umulExtended"
  | .smulExtended => "smulExtended"
  | .sBitFieldExtract => "sBitFieldExtract"
  | .uBitFieldExtract => "uBitFieldExtract"
  | .bitFieldInsert => "bitFieldInsert"
  | .bitReverse => "bitReverse"
  | .bitCount => "bitCount"
  | .findLSB => "findLSB"
  | .sFindMSB => "sFindMSB"
  | .uFindMSB => "uFindMSB"
  | .fFrexp => "fFrexp"
  | .fLdexp => "fLdexp"
  | .floatBitsToInt => "floatBitsToInt"
  | .intBitsToFloat => "intBitsToFloat"
  | .swizzle => "swizzle"
  | .fSwizzle => "fSwizzle"
  | .multiInsert => "multiInsert"
  | .fMultiInsert => "fMultiInsert"
  | .emitVertex => "emitVertex"
  | .endPrimitive => "endPrimitive"
  | .emitStreamVertex => "emitStreamVertex"
  | .endStreamPrimitive => "endStreamPrimitive"
  | .barrier => "barrier"
  | .memoryBarrier => "memoryBarrier"
  | .discardConditional => "discardConditional"

def category : Intrinsic → IntrinsicCategory
  | .readData | .fReadData | .fWriteInterpolant | .fReadInterpolant | .fReadInterpolantOffset
  | .getInterpolant | .writeData | .fWriteData => .pipeline
  | .fPackUnorm2x16 | .fPackUnorm4x8 | .fPackSnorm4x8 | .fUnpackUnorm2x16 | .fUnpackUnorm4x8
  | .fUnpackSnorm4x8 | .fPackDouble2x32 | .fUnpackDouble2x32 => .packing
  | .textureSample | .fTextureSample | .rTextureSample1 | .fRTextureSample1 | .rTextureSample2
  | .fRTextureSample2 | .rTextureSample3 | .fRTextureSample3 | .rTextureSample4 | .fRTextureSample4
  | .textureSampleLodRefZ | .fTextureSampleLodRefZ | .rTextureSampleLodRefZ1 | .fRTextureSampleLodRefZ1
  | .rTextureSampleLodRefZ2 | .fRTextureSampleLodRefZ2 | .rTextureSampleLodRefZ3 | .fRTextureSampleLodRefZ3
  | .rTextureSampleLodRefZ4 | .fRTextureSampleLodRefZ4 | .textureSampleLodRefZOffset
  | .fTextureSampleLodRefZOffset | .rTextureSampleLodRefZOffset1 | .fRTextureSampleLodRefZOffset1
  | .rTextureSampleLodRefZOffset2 | .fRTextureSampleLodRefZOffset2 | .rTextureSampleLodRefZOffset3
  | .fRTextureSampleLodRefZOffset3 | .rTextureSampleLodRefZOffset4 | .fRTextureSampleLodRefZOffset4
  | .textureSampleLodRefZOffsetGrad | .fTextureSampleLodRefZOffsetGrad | .rTextureSampleLodRefZOffsetGrad1
  | .fRTextureSampleLodRefZOffsetGrad1 | .rTextureSampleLodRefZOffsetGrad2
  | .fRTextureSampleLodRefZOffsetGrad2 | .rTextureSampleLodRefZOffsetGrad3
  | .fRTextureSampleLodRefZOffsetGrad3 | .rTextureSampleLodRefZOffsetGrad4
  | .fRTextureSampleLodRefZOffsetGrad4 | .texelFetchOffset | .fTexelFetchOffset | .texelGather
  | .fTexelGather | .texelGatherOffset | .fTexelGatherOffset | .texelGatherOffsets
  | .fTexelGatherOffsets => .textureSample
  | .queryTextureSize | .fQueryTextureLod => .textureQuery
  | .fLength | .fDistance | .fDot2 | .fDot3 | .fDot4 | .fCross | .fNormalize | .fNormalize3D | .fLit
  | .fFaceForward | .fReflect | .fRefract => .geometry
  | .fDFdx | .fDFdy | .fFilterWidth | .fFixedTransform => .derivative
  | .any | .all => .vectorReduction
  | .fSaturate | .fClamp | .fMin | .fMax | .fAbs | .fSign | .fFloor | .fCeiling | .fRoundEven | .fRoundZero
  | .fRoundFast | .fFraction | .fModF | .fMix | .fStep | .fSmoothStep | .fIsNan | .fIsInf | .fFma | .fSqrt
  | .fInverseSqrt | .fSin | .fCos | .fTan | .fAsin | .fAcos | .fAtan | .fAtan2 | .fSinh | .fCosh | .fTanh
  | .fAsinh | .fAcosh | .fAtanh | .fPow | .fPowi | .fExp | .fLog | .fExp2 | .fLog2 | .fExp10
  | .fLog10 => .floatMath
  | .sMin | .sMax | .uMin | .uMax | .sClamp | .uClamp | .abs | .sign | .addCarry | .subBorrow
  | .umulExtended | .smulExtended => .integerMath
  | .sBitFieldExtract | .uBitFieldExtract | .bitFieldInsert | .bitReverse | .bitCount | .findLSB | .sFindMSB
  | .uFindMSB | .fFrexp | .fLdexp | .floatBitsToInt | .intBitsToFloat => .bitManipulation
  | .swizzle | .fSwizzle | .multiInsert | .fMultiInsert => .vectorAssembly
  | .emitVertex | .endPrimitive | .emitStreamVertex | .endStreamPrimitive | .barrier | .memoryBarrier
  | .discardConditional => .control

def ofName (word : String) : Except Text.UnknownWord Intrinsic :=
  match catalog.find? (·.name == word) with
  | some i => .ok i
  | none => .error ⟨.intrinsic, word⟩

end Intrinsic

end Lanewise
